import AudioWalk.Proofs.Script.Performed
import AudioWalk.Proofs.Session.Delivery

/-!
# Blocks of effects

The effects of a run come in blocks, one for each clip that is asked for and one for
each end mark, in the order in which the run performs them.  A clip's block is the
title of the circle, the text of the clip and the request; nothing parts them, and
a clip that finds the player busy has no block at all.

The title goes into the blocks and nowhere else.  So runs under two titles perform
the same statements and leave the same store and player (`alike_script`), and a
title shows as one text at the beginning of every clip's block.
-/

namespace AudioWalk

/-- The title that is shown, if there is anything in it. -/
def heading : Option String → List Effect
  | some title => if title = "" then [] else [.displayText title]
  | none => []

/-- A request comes next, or one more text and then a request. -/
def LeadsToRequest (effects : List Effect) : Prop :=
  ∃ clip volume rest, effects = .playRequest clip volume :: rest ∨
    ∃ text, effects = .displayText text :: .playRequest clip volume :: rest

/-- Behind every text comes the request that it belongs to. -/
def TextsLead (effects : List Effect) : Prop :=
  ∀ before text after, effects = before ++ .displayText text :: after → LeadsToRequest after

theorem LeadsToRequest.append {es : List Effect} (h : LeadsToRequest es) (fs : List Effect) :
    LeadsToRequest (es ++ fs) := by
  obtain ⟨clip, volume, rest, rfl | ⟨text, rfl⟩⟩ := h
  · exact ⟨clip, volume, rest ++ fs, Or.inl rfl⟩
  · exact ⟨clip, volume, rest ++ fs, Or.inr ⟨text, rfl⟩⟩

theorem textsLead_nil : TextsLead [] := by
  intro before text after h
  cases before with
  | nil => cases h
  | cons e before => cases h

theorem textsLead_cons {e : Effect} {es : List Effect}
    (he : ∀ text, e = .displayText text → LeadsToRequest es) (hes : TextsLead es) :
    TextsLead (e :: es) := by
  intro before text after h
  cases before with
  | nil =>
    obtain ⟨htext, hafter⟩ := List.cons.inj h
    exact hafter ▸ he text htext
  | cons _ before => exact hes before text after (List.cons.inj h).2

theorem TextsLead.append {es fs : List Effect} (hes : TextsLead es) (hfs : TextsLead fs) :
    TextsLead (es ++ fs) := by
  induction es with
  | nil => exact hfs
  | cons e es ih =>
    refine textsLead_cons (fun text he => ?_) (ih fun before text after h => ?_)
    · exact (hes [] text es (by rw [he]; rfl)).append fs
    · exact hes (e :: before) text after (by rw [h]; rfl)

namespace Run

variable {σ : Type}

/-- The same run, effects aside. -/
structure Alike (r r' : Run σ) : Prop where
  result : r'.result = r.result
  store : r'.store = r.store
  player : r'.player = r.player

theorem Alike.refl (r : Run σ) : r.Alike r := ⟨rfl, rfl, rfl⟩

theorem Alike.andThen {r r' : Run σ} {next next' : Variables → σ → Run σ} (h : r.Alike r')
    (hnext : ∀ vs p, (next vs p).Alike (next' vs p)) :
    (r.andThen next).Alike (r'.andThen next') := by
  by_cases hdone : r.result = .ok ()
  · have hsecond := hnext r.store r.player
    rw [andThen_of_ok hdone, andThen_of_ok (h.result.trans hdone), h.store, h.player]
    exact ⟨hsecond.result, hsecond.store, hsecond.player⟩
  · have hstopped : r'.result ≠ .ok () := by rwa [h.result]
    rw [andThen_of_not_ok hdone, andThen_of_not_ok hstopped]
    exact h

end Run

namespace Statement

/-- The statements that have something to show. -/
def isShown : Statement → Bool
  | play _ _ _ => true
  | ending => true
  | _ => false

/-- What a statement shows under a title. -/
inductive IsBlock (title? : Option String) : Statement → List Effect → Prop
  | play (clip text : String) (volume : Float32) :
    IsBlock title? (play clip text volume)
      (heading title? ++ (if text = "" then [] else [.displayText text]) ++
        [.playRequest clip volume])
  | ending : IsBlock title? ending [.endOfStory]

variable {title? other? : Option String} {s : Statement}

theorem display_getD (title? : Option String) : display (title?.getD "") = heading title? := by
  cases title? with
  | none => rfl
  | some title => rfl

theorem isBlock_shown (hs : s.isShown = true) : IsBlock title? s (s.shown title?) := by
  cases s with
  | play clip text volume =>
    rw [shown, display_getD]
    exact .play clip text volume
  | ending => exact .ending
  | assign name value => cases hs
  | increment name delta => cases hs
  | branch conditions whenTrue whenFalse => cases hs

theorem shownAll_filter_isShown (ss : List Statement) :
    shownAll title? (ss.filter isShown) = shownAll title? ss := by
  induction ss with
  | nil => rfl
  | cons s rest ih =>
    cases s with
    | play clip text volume =>
      rw [List.filter_cons_of_pos rfl, shownAll_cons, shownAll_cons, ih]
    | ending => rw [List.filter_cons_of_pos rfl, shownAll_cons, shownAll_cons, ih]
    | assign name value => exact ih
    | increment name delta => exact ih
    | branch conditions whenTrue whenFalse => exact ih

/-- A title is put in front of what a clip shows without one. -/
theorem shown_some {title : String} (htitle : title ≠ "") (s : Statement) :
    s.shown (some title) = (if s.isPlay then [.displayText title] else []) ++ s.shown none := by
  cases s with
  | play clip text volume =>
    have hheading : display ((some title).getD "") = [.displayText title] := if_neg htitle
    rw [shown, hheading]
    rfl
  | assign name value => rfl
  | increment name delta => rfl
  | branch conditions whenTrue whenFalse => rfl
  | ending => rfl

theorem textsLead_shown (s : Statement) : TextsLead (s.shown title?) := by
  cases s with
  | play clip text volume =>
    have hrequest : TextsLead [.playRequest clip volume] :=
      textsLead_cons (fun _ he => by cases he) textsLead_nil
    have htext : TextsLead (display text ++ [.playRequest clip volume]) ∧
        LeadsToRequest (display text ++ [.playRequest clip volume]) := by
      unfold display
      split
      · exact ⟨hrequest, clip, volume, [], Or.inl rfl⟩
      · exact ⟨textsLead_cons (fun _ _ => ⟨clip, volume, [], Or.inl rfl⟩) hrequest,
          clip, volume, [], Or.inr ⟨text, rfl⟩⟩
    rw [shown, List.append_assoc]
    generalize title?.getD "" = title
    rw [display]
    split
    · exact htext.1
    · exact textsLead_cons (fun _ _ => htext.2) htext.1
  | ending => exact textsLead_cons (fun _ he => by cases he) textsLead_nil
  | assign name value => exact textsLead_nil
  | increment name delta => exact textsLead_nil
  | branch conditions whenTrue whenFalse => exact textsLead_nil

theorem textsLead_shownAll (ss : List Statement) : TextsLead (shownAll title? ss) := by
  induction ss with
  | nil => exact textsLead_nil
  | cons s rest ih =>
    rw [shownAll_cons]
    exact (textsLead_shown s).append ih

/-! ## Runs under two titles -/

section

variable {σ : Type}

theorem alike_runAll {step step' : Statement → Variables → σ → Run σ}
    (hstep : ∀ s vs p, (step s vs p).Alike (step' s vs p)) (ss : List Statement)
    (vs : Variables) (p : σ) : (runAll step ss vs p).Alike (runAll step' ss vs p) := by
  induction ss generalizing vs p with
  | nil => exact .refl _
  | cons s rest ih => exact (hstep s vs p).andThen ih

theorem performedAll_congr {step step' : Statement → Variables → σ → Run σ}
    {performed performed' : Statement → Variables → σ → List Statement}
    (hstep : ∀ s vs p, (step s vs p).Alike (step' s vs p))
    (hperformed : ∀ s vs p, performed' s vs p = performed s vs p) (ss : List Statement)
    (vs : Variables) (p : σ) :
    performedAll step' performed' ss vs p = performedAll step performed ss vs p := by
  induction ss generalizing vs p with
  | nil => rfl
  | cons s rest ih =>
    have hs := hstep s vs p
    rw [performedAll, performedAll, hs.result, hs.store, hs.player, hperformed, ih]

end

variable {σ : Type} [Player σ]

theorem alike_runInBranch (s : Statement) (vs : Variables) (p : σ) :
    (s.runInBranch title? vs p).Alike (s.runInBranch other? vs p) := by
  cases s with
  | play clip text volume =>
    simp only [runInBranch, runPlay]
    split
    · exact .refl _
    · exact ⟨rfl, rfl, rfl⟩
  | assign name value => exact .refl _
  | increment name delta =>
    rw [runInBranch_increment, runInBranch_increment]
    exact .refl _
  | branch conditions whenTrue whenFalse => exact .refl _
  | ending => exact .refl _

theorem alike_run (s : Statement) (vs : Variables) (p : σ) :
    (s.run title? vs p).Alike (s.run other? vs p) := by
  cases hbranch : s.isBranch with
  | false =>
    rw [run_of_not_branch hbranch, run_of_not_branch hbranch]
    exact alike_runInBranch s vs p
  | true =>
    obtain ⟨conditions, whenTrue, whenFalse, rfl⟩ := exists_of_isBranch hbranch
    cases h : conditionsHold vs conditions with
    | error cause =>
      rw [run_branch_of_error h, run_branch_of_error h]
      exact .refl _
    | ok holds =>
      rw [run_branch h, run_branch h]
      exact alike_runAll alike_runInBranch _ vs p

/-- A title changes nothing but the effects. -/
theorem alike_script (ss : List Statement) (vs : Variables) (p : σ) :
    (runAll (run title?) ss vs p).Alike (runAll (run other?) ss vs p) :=
  alike_runAll alike_run ss vs p

theorem performed_title (s : Statement) (vs : Variables) (p : σ) :
    performed other? s vs p = performed title? s vs p := by
  cases hbranch : s.isBranch with
  | false => rw [performed_of_not_branch hbranch, performed_of_not_branch hbranch]
  | true =>
    obtain ⟨conditions, whenTrue, whenFalse, rfl⟩ := exists_of_isBranch hbranch
    rw [performed, performed]
    split
    · exact performedAll_congr alike_runInBranch (fun _ _ _ => rfl) _ vs p
    · rfl

theorem performedBy_title (ss : List Statement) (vs : Variables) (p : σ) :
    performedBy other? ss vs p = performedBy title? ss vs p :=
  performedAll_congr alike_run performed_title ss vs p

/-- The statements that a run shows, in the order in which it performs them: the
clips it finds the player idle for, and the end marks. -/
def shownBy (title? : Option String) (ss : List Statement) (vs : Variables) (p : σ) :
    List Statement :=
  (performedBy title? ss vs p).filter isShown

theorem mem_shownBy {ss : List Statement} {vs : Variables} {p : σ} : s ∈ shownBy title? ss vs p ↔
    s.isShown = true ∧ ∃ vs' p', GetsTo title? ss vs p s vs' p' ∧
      (s.isPlay = true → isPlaying (Player.elapse p') = false) := by
  have hplain (hs : s.isShown = true) : s.isBranch = false := by
    cases hbranch : s.isBranch with
    | false => rfl
    | true =>
      obtain ⟨conditions, whenTrue, whenFalse, rfl⟩ := exists_of_isBranch hbranch
      cases hs
  rw [shownBy, List.mem_filter, mem_performedBy]
  exact ⟨fun ⟨⟨_, hgets⟩, hs⟩ => ⟨hs, hgets⟩, fun ⟨hs, hgets⟩ => ⟨⟨hplain hs, hgets⟩, hs⟩⟩

theorem effects_execute (ss : List Statement) (vs : Variables) (p : σ) :
    (execute title? ss vs p).effects = shownAll title? (shownBy title? ss vs p) := by
  rw [shownBy, shownAll_filter_isShown]
  exact (accounts_runAll ss vs p).effects

/-- The requests that reach the player are those of the clips among the blocks. -/
theorem requests_execute (ss : List Statement) (vs : Variables) (p : σ) :
    (execute title? ss vs (⟨p, []⟩ : Recorded σ)).player.requests =
      (shownBy title? ss vs p).filterMap request? := by
  have hunseen : execute title? ss vs p =
      (execute title? ss vs (⟨p, []⟩ : Recorded σ)).mapPlayer Recorded.player :=
    execute_map Recorded.playerMap ss vs ⟨p, []⟩
  have heffects : (execute title? ss vs (⟨p, []⟩ : Recorded σ)).effects =
      (execute title? ss vs p).effects := by
    rw [hunseen]
    rfl
  have hreceived := recorded_law.execute title? ss vs (⟨p, []⟩ : Recorded σ)
  rw [hreceived, heffects, effects_execute, requests_shownAll, List.nil_append]

/-- The effects of a run are the blocks of the clips that find the player idle and of
the end marks that the run comes to.  Behind every text comes the request of its
clip, and a clip for a busy player adds nothing to what was shown before it.  Under
another title the run is the same but for the effects, and these differ in the text
of the title, which opens the block of every clip. -/
theorem effects_come_in_blocks (title? : Option String) (ss : List Statement) (vs : Variables)
    (p : σ) :
    let o := execute title? ss vs p
    let blocks := shownBy title? ss vs p
    (o.effects = blocks.flatMap (shown title?) ∧
      ∀ s ∈ blocks, IsBlock title? s (s.shown title?)) ∧
    (∀ s, s ∈ blocks ↔ s.isShown = true ∧ ∃ vs' p', GetsTo title? ss vs p s vs' p' ∧
      (s.isPlay = true → isPlaying (Player.elapse p') = false)) ∧
    (execute title? ss vs (⟨p, []⟩ : Recorded σ)).player.requests = blocks.filterMap request? ∧
    TextsLead o.effects ∧
    (o.completion = .alreadyPlaying → isPlaying o.player = true ∧
      ∃ ran clip text volume rest,
        (straighten vs ss).statements = ran ++ .play clip text volume :: rest ∧
          o.effects = shownAll title? ran) ∧
    (∀ other? : Option String,
      let o' := execute other? ss vs p
      o'.completion = o.completion ∧ o'.store = o.store ∧ o'.player = o.player ∧
        (execute other? ss vs (⟨p, []⟩ : Recorded σ)).player.requests =
          (execute title? ss vs (⟨p, []⟩ : Recorded σ)).player.requests ∧
        shownBy other? ss vs p = blocks) ∧
    ∀ title : String, title ≠ "" →
      (execute none ss vs p).effects = blocks.flatMap (shown none) ∧
      (execute (some title) ss vs p).effects =
        blocks.flatMap fun s =>
          (if s.isPlay then [.displayText title] else []) ++ s.shown none := by
  intro o blocks
  have hblocks (other? : Option String) : shownBy other? ss vs p = blocks :=
    congrArg (List.filter isShown) (performedBy_title ss vs p)
  refine ⟨⟨effects_execute ss vs p, fun s hs => isBlock_shown (List.mem_filter.1 hs).2⟩,
    fun s => mem_shownBy, requests_execute ss vs p, ?_, fun hstopped => ?_, fun other? => ?_,
    fun title htitle => ?_⟩
  · rw [show o.effects = _ from effects_execute ss vs p]
    exact textsLead_shownAll blocks
  · have hfollows : Follows title? vs (straighten vs ss) o := follows_execute ss vs p
    cases hfollows with
    | through heffects hstore hcompletion =>
      rw [hstopped, Line.completion] at hcompletion
      split at hcompletion
      · cases hcompletion
      · cases hcompletion
    | @stopped ran rest clip text volume hline heffects hstore hcompletion hbusy =>
      exact ⟨hbusy, ran, clip, text, volume, rest, hline, heffects⟩
  · have halike : (runAll (run title?) ss vs p).Alike (runAll (run other?) ss vs p) :=
      alike_script ss vs p
    refine ⟨congrArg Completion.ofResult halike.result, halike.store, halike.player, ?_,
      hblocks other?⟩
    exact congrArg Recorded.requests (alike_script ss vs _).player
  · rw [effects_execute, effects_execute, hblocks, hblocks]
    refine ⟨rfl, ?_⟩
    exact congrArg (blocks.flatMap ·) (funext (shown_some htitle))

end Statement
end AudioWalk
