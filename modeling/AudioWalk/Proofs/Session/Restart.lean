import AudioWalk.Proofs.Session.Gates

/-!
# A start forgets everything

A start looks at two things only that a session has kept: its story, which no event
exchanges, and the threshold of its tracker, which no event changes.  So whatever
came before, a session goes on from a start as a new one does.

For a story that was read out of markup it is also said what a start leaves.  The
statements of `init` are assignments, which cannot stop, so the store is that of
the last assignment to each name, and only the intro can meet a busy player.
-/

namespace AudioWalk

/-! ## Assignments -/

namespace Statement

/-- The statement gives the variable a value. -/
def Assigns (name : String) (s : Statement) : Prop := ∃ value, s = .assign name value

def assigned (vs : Variables) : Statement → Variables
  | assign name value => vs.set name value
  | _ => vs

variable {ss : List Statement}

theorem runAll_assigns {σ : Type} [Player σ] (hss : ∀ s ∈ ss, ∃ name, Assigns name s)
    (title? : Option String) (vs : Variables) (p : σ) :
    runAll (run title?) ss vs p = .nothing (ss.foldl assigned vs) p := by
  induction ss generalizing vs with
  | nil => rfl
  | cons s rest ih =>
    obtain ⟨⟨name, value, hs⟩, hrest⟩ := List.forall_mem_cons.1 hss
    rw [hs]
    exact (Run.nothing_andThen _ _ _).trans (ih hrest _)

/-- The value that a name has behind some assignments is that of the last one to
it. -/
theorem get?_assigned (hss : ∀ s ∈ ss, ∃ name, Assigns name s) {name : String} {value : Int64} :
    (ss.foldl assigned .empty).get? name = some value ↔
      ∃ later, LastWith (Assigns name) ss (.assign name value) later := by
  induction ss using List.reverseRecOn with
  | nil => exact ⟨nofun, fun ⟨_, hlast⟩ => absurd hlast not_lastWith_nil⟩
  | append_singleton ss s ih =>
    rw [List.forall_mem_append, List.forall_mem_singleton] at hss
    obtain ⟨hss, other, value', hs⟩ := hss
    rw [List.foldl_append, hs]
    show ((ss.foldl assigned .empty).set other value').get? name = some value ↔ _
    by_cases hname : name = other
    · have hthis : Assigns name (.assign name value') := ⟨value', rfl⟩
      rw [← hname, Variables.get?_set_self, exists_congr fun _ => lastWith_concat_of_mark hthis]
      constructor
      · intro h
        exact ⟨[], congrArg (assign name) (Option.some.inj h).symm, rfl⟩
      · intro ⟨_, h, _⟩
        rw [(assign.inj h).2]
    · have hother : ¬ Assigns name (.assign other value') :=
        fun ⟨_, h⟩ => hname (assign.inj h).1.symm
      rw [Variables.get?_set_ne _ hname, ih hss,
        exists_congr fun _ => lastWith_concat_of_not_mark hother]
      constructor
      · intro ⟨later, hlast⟩
        exact ⟨_, later, rfl, hlast⟩
      · intro ⟨_, later, _, hlast⟩
        exact ⟨later, hlast⟩

end Statement

/-! ## Starts -/

/-- What a start has to tell.  An intro clip is not asked for while another clip is
playing, and then its text is not shown either. -/
def Story.introduction (s : Story) (busy : Bool) : List Effect :=
  match s.introClip? with
  | some clip => if busy then [] else display s.introText ++ [.playRequest clip 1.0]
  | none => display s.introText

section

variable {σ : Type} [Player σ]

theorem Session.start_of_assigns {s : Session}
    (hinit : ∀ x ∈ s.story.init, ∃ name, Statement.Assigns name x) (p : σ) :
    (s.start p).result = .ok (s.story.introduction (isPlaying (Player.elapse p))) ∧
      (s.start p).session.store = s.story.init.foldl Statement.assigned .empty := by
  have hexecute (ss : List Statement) : execute none (s.story.init ++ ss) .empty p =
      execute none ss (s.story.init.foldl Statement.assigned .empty) p := by
    rw [execute, Statement.runAll_append, Statement.runAll_assigns hinit, Run.nothing_andThen]
    rfl
  rw [result_start, session_start, Story.opening, hexecute, Story.introDisplay,
    Story.introduction]
  cases s.story.introClip? with
  | none => exact ⟨rfl, rfl⟩
  | some clip =>
    have hplay (vs : Variables) : execute none [.play clip s.story.introText 1.0] vs p =
        (Statement.runPlay none clip s.story.introText 1.0 vs p).outcome :=
      congrArg Run.outcome (Run.andThen_nothing _)
    rw [hplay, Statement.runPlay]
    cases isPlaying (Player.elapse p) with
    | true => exact ⟨rfl, rfl⟩
    | false => exact ⟨congrArg Except.ok (List.append_nil _), rfl⟩

/-- Two sessions on one story with one setting start alike. -/
theorem Session.start_congr {s s' : Session} (hstory : s.story = s'.story)
    (hthreshold : s.tracker.threshold = s'.tracker.threshold) (p : σ) : s.start p = s'.start p := by
  have hreset : s.reset = { s'.reset with status := s.status } := by
    unfold reset Tracker.reset
    rw [hstory, hthreshold]
  have hrunning : { s.reset with status := .running } = { s'.reset with status := .running } := by
    rw [hreset]
  unfold start
  rw [hrunning]

/-- Whatever has happened before, a start of a story that was read out of markup
has the same effects and leaves the same session, so that nothing that comes later
can tell the difference.  It succeeds; the store holds the last assignment of
`init` to each name and no other; and no spot counts as visited. -/
theorem start_forgets_history {source folder : String} {story : Story}
    (h : Story.read source folder = .ok story) (host : HostAction → σ → σ)
    (warmUpReadings : UInt32) (p p' q : σ) (events events' : List Event) :
    let s := (chronicle host events (Session.new story warmUpReadings) p).session
    let s' := (chronicle host events' (Session.new story warmUpReadings) p').session
    let t := s.start q
    t = s'.start q ∧
    (∀ later, history host (.call .start :: later) s q =
      history host (.call .start :: later) s' q) ∧
    t.result = .ok (story.introduction (isPlaying (Player.elapse q))) ∧
    t.session.status = .running ∧ t.session.triggered = [] ∧
    ∀ name value, t.session.store.get? name = some value ↔
      ∃ later, LastWith (Statement.Assigns name) story.init (.assign name value) later := by
  intro s s' t
  have hstory : s.story = story := story_chronicle host _ p events
  have hstory' : s'.story = story := story_chronicle host _ p' events'
  have hsame : t = s'.start q := by
    obtain ⟨_, hcounts⟩ := (counts_chronicle host story warmUpReadings p events).tracker
    obtain ⟨_, hcounts'⟩ := (counts_chronicle host story warmUpReadings p' events').tracker
    exact Session.start_congr (hstory.trans hstory'.symm)
      (hcounts.threshold.trans hcounts'.threshold.symm) q
  have hinit : ∀ x ∈ story.init, ∃ name, Statement.Assigns name x := (Story.sound_of_read h).init
  obtain ⟨hresult, hstore⟩ : t.result = .ok (story.introduction (isPlaying (Player.elapse q))) ∧
      t.session.store = story.init.foldl Statement.assigned .empty := by
    rw [← hstory] at hinit ⊢
    exact Session.start_of_assigns hinit q
  have hsession := Session.session_start s q
  refine ⟨hsame, fun later => ?_, hresult, congrArg Session.status hsession,
    congrArg Session.triggered hsession, fun name value => ?_⟩
  · have hturn : Event.turn host s q (.call .start) = Event.turn host s' q (.call .start) := hsame
    rw [history, history, hturn]
  · rw [hstore]
    exact Statement.get?_assigned hinit

/-- A story that assigns one variable twice, started behind a walk that was given
up, and started for the first time. -/
theorem start_forgets_walk :
    let source := "<story title='Two' introfile='a'>" ++
      "<init><assign variable='n' value='1'/><assign variable='n' value='2'/></init>" ++
      "<spot latitude='0' longitude='0'><circle radius='5'/></spot></story>"
    let story := Story.of "Two" "walk" (some "a") "" [.assign "n" 1, .assign "n" 2]
      [Spot.of ⟨0, 0⟩ [⟨5, none, [], none⟩]]
    let s := (chronicle Playback.host [.call .start, .host .finish, .call .stop]
      (Session.new story 1) .idle).session
    let t := s.start Playback.idle
    Story.read source "walk" = .ok story ∧ t = (Session.new story 1).start .idle ∧
      t.result = .ok [.playRequest "a" 1.0] ∧ t.session.store.get? "n" = some 2 := by
  intro source story s t
  let quoted (name value : String) : Markup.Attribute :=
    ⟨[' '], name.toList, [], [], .single, value.toList⟩
  let assigning (value : String) : Markup.Lexeme :=
    .opening "assign".toList [quoted "variable" "n", quoted "value" value] [] true
  let lexemes : List Markup.Lexeme :=
    [.opening "story".toList [quoted "title" "Two", quoted "introfile" "a"] [] false,
      .opening "init".toList [] [] false, assigning "1", assigning "2", .closing "init".toList [],
      .opening "spot".toList [quoted "latitude" "0", quoted "longitude" "0"] [] false,
      .opening "circle".toList [quoted "radius" "5"] [] true,
      .closing "spot".toList [], .closing "story".toList []]
  let assignment (value : String) : Markup.Element :=
    ⟨"assign", [("variable", "n"), ("value", value)], [], 1⟩
  let root : Markup.Element := ⟨"story", [("title", "Two"), ("introfile", "a")],
    [⟨"init", [], [assignment "1", assignment "2"], 1⟩,
      ⟨"spot", [("latitude", "0"), ("longitude", "0")],
        [⟨"circle", [("radius", "5")], [], 1⟩], 1⟩], 1⟩
  have hlexemes : Markup.Lexeme.readAll? source.toList = some lexemes := by decide +kernel
  have htree : Markup.treeOf? lexemes = some root := by cbv
  have hread : Story.read source "walk" = .ok story :=
    Story.read_of_lexemes hlexemes htree rfl rfl
  obtain ⟨hsame, _, hresult, _, _, hstore⟩ := start_forgets_history hread Playback.host 1
    .idle .idle .idle [.call .start, .host .finish, .call .stop] []
  have hlast : LastWith (Statement.Assigns "n") story.init (.assign "n" 2) [] :=
    ⟨⟨[.assign "n" 1], rfl⟩, ⟨2, rfl⟩, List.forall_mem_nil _⟩
  have hintroduction : story.introduction false = [.playRequest "a" 1.0] := rfl
  exact ⟨hread, hsame, hresult.trans (congrArg Except.ok hintroduction),
    (hstore "n" 2).2 ⟨[], hlast⟩⟩

end
end AudioWalk
