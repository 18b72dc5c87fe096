import AudioWalk.Proofs.Story.Readers

/-!
# Lowering of statements

`Lowers` says of a reader of elements which elements it accepts and what it makes
of them.  It passes from the reader of an element to that of the children of an
element, so the grammar is climbed from the statements without children to the
statements of a circle.

The parts of an `if` are read with a state, `Parts`, which is inverted step by
step; what holds of a run over all children follows by induction.
-/

namespace AudioWalk
namespace Story

open Markup (Element)

variable {β : Type}

/-- The reader accepts the elements of the grammar and no others, and its result
is what the element tells. -/
structure Lowers (read : Element → Except Fault β) (Is : Element → Prop)
    (Tells : Element → β → Prop) : Prop where
  accepts : ∀ e, (∃ b, read e = .ok b) ↔ Is e
  tells : ∀ {e b}, read e = .ok b → Tells e b

namespace Lowers

variable {read : Element → Except Fault β} {Is : Element → Prop} {Tells : Element → β → Prop}

theorem exists_mapM (h : Lowers read Is Tells) (es : List Element) :
    (∃ bs, es.mapM read = .ok bs) ↔ ∀ e ∈ es, Is e := by
  rw [exists_mapM_eq_ok]
  exact forall₂_congr fun e _ => h.accepts e

theorem forall₂ (h : Lowers read Is Tells) {es : List Element} {bs : List β}
    (hbs : es.mapM read = .ok bs) : List.Forall₂ Tells es bs :=
  (mapM_eq_ok.1 hbs).imp fun _ _ => h.tells

theorem block {readIn : Element → Element → Except Fault β}
    (h : ∀ parent, Lowers (readIn parent) Is Tells) :
    Lowers (fun e => e.children.mapM (readIn e)) (fun e => ∀ c ∈ e.children, Is c)
      (fun e bs => List.Forall₂ Tells e.children bs) where
  accepts e := (h e).exists_mapM e.children
  tells {e _} hbs := (h e).forall₂ hbs

/-- A tag that is tested in front of a reader. -/
theorem tagged {tag : String} (haccepts : ∀ e, (∃ b, e.name = tag ∧ read e = .ok b) ↔ Is e)
    (htells : ∀ {e b}, e.name = tag → read e = .ok b → Tells e b) (parent : Element) :
    Lowers (fun e => if e.name = tag then read e else unknownTag e parent) Is Tells where
  accepts e := by
    simp only [unknownTag, guarded_eq_ok]
    exact haccepts e
  tells hb := by
    rw [unknownTag, guarded_eq_ok] at hb
    exact htells hb.1 hb.2

end Lowers

/-! ## Statements without children -/

def Leaf.tag : Leaf → String
  | assign => "assign"
  | increment => "increment"
  | play => "play"
  | ending => "end"

theorem Leaf.tag_ne_if (kind : Leaf) : kind.tag ≠ "if" := by
  cases kind <;> decide

theorem Leaf.ofTag?_eq_some {tag : String} {kind : Leaf} :
    Leaf.ofTag? tag = some kind ↔ tag = kind.tag := by
  constructor
  · intro h
    unfold Leaf.ofTag? at h
    split at h <;> cases h <;> rfl
  · intro h
    rw [h]
    cases kind <;> rfl

def Leaf.Is : Leaf → Element → Prop
  | assign => IsAssign
  | increment => IsIncrement
  | play => IsPlay
  | ending => IsEnd

theorem Leaf.Is.tag {kind : Leaf} {e : Element} (h : kind.Is e) : e.name = kind.tag := by
  cases kind with
  | assign => exact IsAssign.tag h
  | increment => exact IsIncrement.tag h
  | play => exact IsPlay.tag h
  | ending => exact IsEnd.tag h

theorem isPlain_iff {e : Element} : IsPlain e ↔ ∃ kind : Leaf, kind.Is e := by
  constructor
  · intro h
    rcases h with h | h | h | h
    · exact ⟨.assign, h⟩
    · exact ⟨.increment, h⟩
    · exact ⟨.play, h⟩
    · exact ⟨.ending, h⟩
  · intro ⟨kind, h⟩
    cases kind with
    | assign => exact Or.inl h
    | increment => exact Or.inr (Or.inl h)
    | play => exact Or.inr (Or.inr (Or.inl h))
    | ending => exact Or.inr (Or.inr (Or.inr h))

theorem Leaf.accepts (kind : Leaf) (e : Element) :
    (∃ s, e.name = kind.tag ∧ kind.statement e = .ok s) ↔ kind.Is e := by
  cases kind with
  | assign =>
    simp only [Leaf.statement, assignment_eq_ok]
    constructor
    · intro ⟨_, htag, hleaf, name, value, hname, hvalue, _⟩
      exact ⟨htag, hleaf, ⟨name, hname⟩, value, hvalue⟩
    · intro ⟨htag, hleaf, ⟨name, hname⟩, value, hvalue⟩
      exact ⟨_, htag, hleaf, name, value, hname, hvalue, rfl⟩
  | increment =>
    simp only [Leaf.statement, incrementation_eq_ok]
    constructor
    · intro ⟨_, htag, hleaf, name, delta, hname, hdelta, _⟩
      exact ⟨htag, hleaf, ⟨name, hname⟩, delta, hdelta⟩
    · intro ⟨htag, hleaf, ⟨name, hname⟩, delta, hdelta⟩
      exact ⟨_, htag, hleaf, name, delta, hname, hdelta, rfl⟩
  | play =>
    simp only [Leaf.statement, playing_eq_ok]
    constructor
    · intro ⟨_, htag, hleaf, clip, volume, hclip, hvolume, _⟩
      exact ⟨htag, hleaf, ⟨clip, hclip⟩, volume, hvolume⟩
    · intro ⟨htag, hleaf, ⟨clip, hclip⟩, volume, hvolume⟩
      exact ⟨_, htag, hleaf, clip, volume, hclip, hvolume, rfl⟩
  | ending =>
    simp only [Leaf.statement, endMark_eq_ok]
    constructor
    · intro ⟨_, htag, hleaf, _⟩
      exact ⟨htag, hleaf⟩
    · intro ⟨htag, hleaf⟩
      exact ⟨_, htag, hleaf, rfl⟩

theorem Leaf.tells (kind : Leaf) {e : Element} {s : Statement} (htag : e.name = kind.tag)
    (h : kind.statement e = .ok s) : PlainMeans e s := by
  cases kind with
  | assign =>
    obtain ⟨_, name, value, hname, hvalue, hs⟩ := assignment_eq_ok.1 h
    rw [hs]
    exact .assign htag hname hvalue
  | increment =>
    obtain ⟨_, name, delta, hname, hdelta, hs⟩ := incrementation_eq_ok.1 h
    rw [hs]
    exact .increment htag hname hdelta
  | play =>
    obtain ⟨_, clip, volume, hclip, hvolume, hs⟩ := playing_eq_ok.1 h
    rw [hs]
    exact .play htag hclip hvolume
  | ending =>
    obtain ⟨_, hs⟩ := endMark_eq_ok.1 h
    rw [hs]
    exact .ending htag

theorem initBlock_lowers :
    Lowers initBlock (fun e => ∀ c ∈ e.children, IsAssign c)
      (fun e ss => List.Forall₂ PlainMeans e.children ss) :=
  .block (.tagged (Leaf.accepts .assign) (Leaf.tells .assign))

theorem plain_eq_ok {e parent : Element} {s : Statement} :
    (match Leaf.ofTag? e.name with
      | some kind => kind.statement e
      | none => unknownTag e parent) = .ok s ↔
      ∃ kind : Leaf, e.name = kind.tag ∧ kind.statement e = .ok s := by
  simp only [← Leaf.ofTag?_eq_some]
  cases Leaf.ofTag? e.name with
  | none => simp
  | some kind => simp

theorem plain_lowers (parent : Element) :
    Lowers (fun e =>
        match Leaf.ofTag? e.name with
        | some kind => kind.statement e
        | none => unknownTag e parent)
      IsPlain PlainMeans where
  accepts e := by
    simp only [plain_eq_ok]
    rw [exists_comm, isPlain_iff]
    exact exists_congr fun kind => kind.accepts e
  tells h := by
    obtain ⟨kind, htag, hs⟩ := plain_eq_ok.1 h
    exact kind.tells htag hs

theorem branchBlock_lowers :
    Lowers branchBlock (fun e => ∀ c ∈ e.children, IsPlain c)
      (fun e ss => List.Forall₂ PlainMeans e.children ss) :=
  .block plain_lowers

theorem conditions_lowers :
    Lowers conditions (fun e => ∀ c ∈ e.children, IsEquals c)
      (fun e cs => List.Forall₂ EqualsMeans e.children cs) := by
  refine .block (.tagged (fun e => ?_) (fun _ h => (condition_eq_ok.1 h).2))
  simp only [condition_eq_ok]
  constructor
  · intro ⟨c, htag, hleaf, hc⟩
    exact ⟨htag, hleaf, ⟨c.left, hc.left⟩, c.right, hc.right⟩
  · intro ⟨htag, hleaf, ⟨left, hleft⟩, right, hright⟩
    exact ⟨⟨left, right⟩, htag, hleaf, hleft, hright⟩

/-! ## Conditionals -/

def Part.tag : Part → String
  | condition => "condition"
  | whenTrue => "then"
  | whenFalse => "else"

theorem Part.ofTag?_eq_some {tag : String} {part : Part} :
    Part.ofTag? tag = some part ↔ tag = part.tag := by
  constructor
  · intro h
    unfold Part.ofTag? at h
    split at h <;> cases h <;> rfl
  · intro h
    rw [h]
    cases part <;> rfl

def Part.Is : Part → Element → Prop
  | condition, e => ∀ c ∈ e.children, IsEquals c
  | whenTrue, e => ∀ c ∈ e.children, IsPlain c
  | whenFalse, e => ∀ c ∈ e.children, IsPlain c

/-- A child after which reading goes on from `next`. -/
def Part.Fills : Part → Element → Parts → Parts → Prop
  | condition, e, parts, next =>
    ∃ cs, conditions e = .ok cs ∧ next = { parts with rank := 1, conditions := cs }
  | whenTrue, e, parts, next =>
    ∃ ss, branchBlock e = .ok ss ∧ next = { parts with rank := 2, whenTrue := ss }
  | whenFalse, e, parts, next =>
    ∃ ss, branchBlock e = .ok ss ∧ next = { parts with rank := 3, whenFalse := ss }

theorem Parts.add_eq_ok {parent e : Element} {parts next : Parts} :
    Parts.add parent parts e = .ok next ↔
      ∃ part : Part, e.name = part.tag ∧ parts.rank < part.rank ∧ part.Fills e parts next := by
  simp only [← Part.ofTag?_eq_some, ← Nat.not_le]
  rw [Parts.add]
  cases Part.ofTag? e.name with
  | none => simp
  | some part =>
    simp only [refused_eq_ok, Option.some.injEq, exists_eq_left']
    refine and_congr_right fun _ => ?_
    cases part with
    | condition => simp only [bind_eq_ok, pure_eq_ok, Part.Fills, Part.rank]
    | whenTrue => simp only [bind_eq_ok, pure_eq_ok, Part.Fills, Part.rank]
    | whenFalse => simp only [bind_eq_ok, pure_eq_ok, Part.Fills, Part.rank]

theorem exists_result {x : Except Fault β} {γ : Type} {f : β → γ} :
    (∃ c b, x = .ok b ∧ c = f b) ↔ ∃ b, x = .ok b := by
  rw [exists_comm]
  simp only [exists_and_left, exists_eq, and_true]

theorem Part.exists_fills (part : Part) (e : Element) (parts : Parts) :
    (∃ next, part.Fills e parts next) ↔ part.Is e := by
  cases part with
  | condition => exact exists_result.trans (conditions_lowers.accepts e)
  | whenTrue => exact exists_result.trans (branchBlock_lowers.accepts e)
  | whenFalse => exact exists_result.trans (branchBlock_lowers.accepts e)

theorem Part.Fills.rank {part : Part} {e : Element} {parts next : Parts}
    (h : part.Fills e parts next) : next.rank = part.rank := by
  cases part with
  | condition =>
    obtain ⟨_, _, hnext⟩ := h
    rw [hnext]
    rfl
  | whenTrue =>
    obtain ⟨_, _, hnext⟩ := h
    rw [hnext]
    rfl
  | whenFalse =>
    obtain ⟨_, _, hnext⟩ := h
    rw [hnext]
    rfl

def Part.tags : List String := ["condition", "then", "else"]

theorem Part.exists_iff {P : Part → Prop} :
    (∃ part, P part) ↔ P condition ∨ P whenTrue ∨ P whenFalse := by
  constructor
  · intro ⟨part, h⟩
    cases part with
    | condition => exact Or.inl h
    | whenTrue => exact Or.inr (Or.inl h)
    | whenFalse => exact Or.inr (Or.inr h)
  · intro h
    rcases h with h | h | h
    · exact ⟨_, h⟩
    · exact ⟨_, h⟩
    · exact ⟨_, h⟩

theorem Part.mem_tags {tag : String} : tag ∈ Part.tags ↔ ∃ part : Part, tag = part.tag := by
  rw [Part.exists_iff]
  simp only [Part.tags, Part.tag, List.mem_cons, List.not_mem_nil, or_false]

/-- What the rank allows next is what still fits into the list of tags. -/
theorem cons_sublist_tags {tag : String} {tags : List String} {rank : Nat} :
    (tag :: tags).Sublist (Part.tags.drop rank) ↔
      ∃ part : Part, tag = part.tag ∧ rank < part.rank ∧
        tags.Sublist (Part.tags.drop part.rank) := by
  rw [Part.exists_iff]
  simp only [Part.tags, Part.tag, Part.rank]
  rcases rank with _ | _ | _ | rank
  · simp only [List.drop_zero, List.drop_succ_cons, List.cons_sublist_cons', List.sublist_nil]
    grind
  · simp only [List.drop_zero, List.drop_succ_cons, List.cons_sublist_cons', List.sublist_nil]
    grind
  · simp only [List.drop_zero, List.drop_succ_cons, List.cons_sublist_cons', List.sublist_nil]
    grind
  · rw [List.drop_eq_nil_of_le (Nat.le_add_left 3 rank)]
    grind

theorem Part.eq_of_tag {part other : Part} (h : part.tag = other.tag) : part = other :=
  Option.some.inj ((Part.ofTag?_eq_some.2 rfl).symm.trans (Part.ofTag?_eq_some.2 h))

theorem exists_parts {parent : Element} {es : List Element} {parts : Parts} :
    (∃ last, es.foldlM (Parts.add parent) parts = .ok last) ↔
      (es.map Element.name).Sublist (Part.tags.drop parts.rank) ∧
        ∀ e ∈ es, ∀ part : Part, e.name = part.tag → part.Is e := by
  induction es generalizing parts with
  | nil => simp [pure_eq_ok]
  | cons e es ih =>
    simp only [foldlM_cons_eq_ok, Parts.add_eq_ok]
    rw [List.map_cons, cons_sublist_tags, List.forall_mem_cons]
    constructor
    · intro ⟨last, next, ⟨part, htag, hrank, hfills⟩, hlast⟩
      obtain ⟨horder, hall⟩ := ih.1 ⟨last, hlast⟩
      rw [hfills.rank] at horder
      refine ⟨⟨part, htag, hrank, horder⟩, fun part' htag' => ?_, hall⟩
      rw [Part.eq_of_tag (htag'.symm.trans htag)]
      exact (part.exists_fills e parts).1 ⟨next, hfills⟩
    · intro ⟨⟨part, htag, hrank, horder⟩, he, hall⟩
      obtain ⟨next, hfills⟩ := (part.exists_fills e parts).2 (he part htag)
      rw [← hfills.rank] at horder
      obtain ⟨last, hlast⟩ := ih.2 ⟨horder, hall⟩
      exact ⟨last, next, ⟨part, htag, hrank, hfills⟩, hlast⟩

theorem tagged_append_of_ne {done : List Element} {e : Element} {tag : String}
    (h : e.name ≠ tag) : tagged (done ++ [e]) tag = tagged done tag := by
  rw [tagged, List.filter_append, List.filter_cons_of_neg (by simpa using h), List.filter_nil,
    List.append_nil]
  rfl

theorem tagged_append_of_eq {done : List Element} {e : Element} {tag : String}
    (h : e.name = tag) : tagged (done ++ [e]) tag = tagged done tag ++ [e] := by
  rw [tagged, List.filter_append, List.filter_cons_of_pos (by simpa using h), List.filter_nil]
  rfl

theorem below_append_of_ne {done : List Element} {e : Element} {tag : String}
    (h : e.name ≠ tag) : below (done ++ [e]) tag = below done tag := by
  rw [below, tagged_append_of_ne h]
  rfl

theorem below_append_of_eq {done : List Element} {e : Element} {tag : String} (h : e.name = tag)
    (hdone : ∀ d ∈ done, d.name ≠ tag) : below (done ++ [e]) tag = e.children := by
  have hnone : tagged done tag = [] := by
    simpa [tagged] using hdone
  rw [below, tagged_append_of_eq h, hnone, List.nil_append, List.flatMap_singleton]

/-- What has been read of an `if` is what stands in the children that are done. -/
structure Parts.Tells (done : List Element) (parts : Parts) : Prop where
  rank : ∀ e ∈ done, ∀ part : Part, e.name = part.tag → part.rank ≤ parts.rank
  conditions : List.Forall₂ EqualsMeans (below done Part.condition.tag) parts.conditions
  whenTrue : List.Forall₂ PlainMeans (below done Part.whenTrue.tag) parts.whenTrue
  whenFalse : List.Forall₂ PlainMeans (below done Part.whenFalse.tag) parts.whenFalse

theorem Parts.Tells.add {parent e : Element} {done : List Element} {parts next : Parts}
    (h : parts.Tells done) (hnext : Parts.add parent parts e = .ok next) :
    next.Tells (done ++ [e]) := by
  obtain ⟨part, htag, hrank, hfills⟩ := Parts.add_eq_ok.1 hnext
  have hself : below (done ++ [e]) part.tag = e.children :=
    below_append_of_eq htag fun d hd hname => Nat.not_le.2 hrank (h.rank d hd part hname)
  have hother : ∀ other : Part, other ≠ part →
      below (done ++ [e]) other.tag = below done other.tag := fun other hne =>
    below_append_of_ne fun hname => hne (Part.eq_of_tag (hname.symm.trans htag))
  have hranks : ∀ d ∈ done ++ [e], ∀ part' : Part, d.name = part'.tag →
      part'.rank ≤ next.rank := by
    intro d hd part' hname
    rw [hfills.rank]
    rcases List.mem_append.1 hd with hd | hd
    · exact Nat.le_trans (h.rank d hd part' hname) (Nat.le_of_lt hrank)
    · rw [List.mem_singleton.1 hd, htag] at hname
      exact Nat.le_of_eq (congrArg Part.rank (Part.eq_of_tag hname.symm))
  cases part with
  | condition =>
    obtain ⟨cs, hcs, hnext⟩ := hfills
    rw [hnext] at hranks ⊢
    refine ⟨hranks, ?_, ?_, ?_⟩
    · rw [hself]
      exact conditions_lowers.tells hcs
    · rw [hother .whenTrue nofun]
      exact h.whenTrue
    · rw [hother .whenFalse nofun]
      exact h.whenFalse
  | whenTrue =>
    obtain ⟨ss, hss, hnext⟩ := hfills
    rw [hnext] at hranks ⊢
    refine ⟨hranks, ?_, ?_, ?_⟩
    · rw [hother .condition nofun]
      exact h.conditions
    · rw [hself]
      exact branchBlock_lowers.tells hss
    · rw [hother .whenFalse nofun]
      exact h.whenFalse
  | whenFalse =>
    obtain ⟨ss, hss, hnext⟩ := hfills
    rw [hnext] at hranks ⊢
    refine ⟨hranks, ?_, ?_, ?_⟩
    · rw [hother .condition nofun]
      exact h.conditions
    · rw [hother .whenTrue nofun]
      exact h.whenTrue
    · rw [hself]
      exact branchBlock_lowers.tells hss

theorem mem_below {es : List Element} {c : Element} {tag : String} :
    c ∈ below es tag ↔ ∃ e ∈ es, e.name = tag ∧ c ∈ e.children := by
  rw [below, tagged, List.mem_flatMap]
  simp only [List.mem_filter, decide_eq_true_eq, and_assoc]

theorem conditional_eq_ok {e : Element} {s : Statement} :
    conditional e = .ok s ↔ ∃ parts, e.children.foldlM (Parts.add e) Parts.none = .ok parts ∧
      s = .branch parts.conditions parts.whenTrue parts.whenFalse := by
  rw [conditional, bind_eq_ok]
  simp only [pure_eq_ok]

theorem IsIf.part_is {e d : Element} (h : IsIf e) (hd : d ∈ e.children) (part : Part)
    (hname : d.name = part.tag) : part.Is d := by
  cases part with
  | condition => exact fun c hc => h.conditions c (mem_below.2 ⟨d, hd, hname, hc⟩)
  | whenTrue => exact fun c hc => h.whenTrue c (mem_below.2 ⟨d, hd, hname, hc⟩)
  | whenFalse => exact fun c hc => h.whenFalse c (mem_below.2 ⟨d, hd, hname, hc⟩)

theorem exists_conditional (e : Element) :
    (∃ s, e.name = "if" ∧ conditional e = .ok s) ↔ IsIf e := by
  simp only [conditional_eq_ok]
  constructor
  · intro ⟨_, htag, parts, hparts, _⟩
    obtain ⟨horder, hall⟩ := exists_parts.1 ⟨parts, hparts⟩
    refine ⟨htag, horder, ?_, ?_, ?_⟩
    · intro c hc
      obtain ⟨d, hd, hname, hc⟩ := mem_below.1 hc
      exact hall d hd .condition hname c hc
    · intro c hc
      obtain ⟨d, hd, hname, hc⟩ := mem_below.1 hc
      exact hall d hd .whenTrue hname c hc
    · intro c hc
      obtain ⟨d, hd, hname, hc⟩ := mem_below.1 hc
      exact hall d hd .whenFalse hname c hc
  · intro h
    have hall : ∀ d ∈ e.children, ∀ part : Part, d.name = part.tag → part.Is d :=
      fun d hd part hname => h.part_is hd part hname
    have horder : (e.children.map Element.name).Sublist (Part.tags.drop Parts.none.rank) := h.parts
    obtain ⟨parts, hparts⟩ := exists_parts.2 ⟨horder, hall⟩
    exact ⟨_, h.tag, parts, hparts, rfl⟩

theorem conditional_tells {e : Element} {s : Statement} (htag : e.name = "if")
    (h : conditional e = .ok s) : Means e s := by
  obtain ⟨parts, hparts, hs⟩ := conditional_eq_ok.1 h
  have hnone : Parts.none.Tells [] := ⟨nofun, .nil, .nil, .nil⟩
  have htells := foldlM_invariant (fun h hnext => h.add hnext) hnone hparts
  rw [hs]
  exact .branch htag htells.conditions htells.whenTrue htells.whenFalse

/-! ## The statements of a circle -/

theorem circleStatement_lowers (parent : Element) :
    Lowers (fun e =>
        if e.name = "if" then conditional e
        else
          match Leaf.ofTag? e.name with
          | some kind => kind.statement e
          | none => unknownTag e parent)
      (fun e => IsPlain e ∨ IsIf e) Means where
  accepts e := by
    by_cases htag : e.name = "if"
    · have hplain : ¬ IsPlain e := by
        intro h
        obtain ⟨kind, hkind⟩ := isPlain_iff.1 h
        exact kind.tag_ne_if (hkind.tag.symm.trans htag)
      simp only [if_pos htag]
      rw [or_iff_right hplain, ← exists_conditional]
      exact exists_congr fun s => (and_iff_right htag).symm
    · have hif : ¬ IsIf e := fun h => htag h.tag
      simp only [if_neg htag]
      rw [or_iff_left hif]
      exact (plain_lowers parent).accepts e
  tells {e _} h := by
    by_cases htag : e.name = "if"
    · rw [if_pos htag] at h
      exact conditional_tells htag h
    · rw [if_neg htag] at h
      exact .plain ((plain_lowers parent).tells h)

theorem circleBlock_lowers :
    Lowers circleBlock (fun e => ∀ c ∈ e.children, IsPlain c ∨ IsIf c)
      (fun e ss => List.Forall₂ Means e.children ss) :=
  .block circleStatement_lowers

end Story
end AudioWalk
