import Mathlib.Data.List.Induction
import AudioWalk.Proofs.Session.History

/-!
# Chronicles

A chronicle keeps for every event of a history what the event found: the session
and the player in front of it, beside the turn it led to.  Chronicles grow at
their end, so what is said of "the last start" or of what came "since" is proved
one event at a time: `chronicle_induction` is the induction, and `LastWith` says
what the last of its kind is when one more thing comes.
-/

namespace AudioWalk

/-! ## The last of its kind -/

/-- `x` is the last of some things that has a mark, and `later` is what comes
behind it. -/
structure LastWith {α : Type} (mark : α → Prop) (xs : List α) (x : α) (later : List α) : Prop where
  split : ∃ earlier, xs = earlier ++ x :: later
  marked : mark x
  unmarked : ∀ y ∈ later, ¬ mark y

section

variable {α : Type} {mark : α → Prop} {xs later : List α} {x y : α}

theorem concat_eq_append_cons {earlier : List α} :
    xs ++ [y] = earlier ++ x :: later ↔
      later = [] ∧ xs = earlier ∧ y = x ∨ ∃ ys, later = ys ++ [y] ∧ xs = earlier ++ x :: ys := by
  constructor
  · intro h
    rcases List.eq_nil_or_concat later with hnil | ⟨ys, z, hlater⟩
    · rw [hnil] at h
      obtain ⟨hxs, hy⟩ := List.append_inj' h rfl
      exact Or.inl ⟨hnil, hxs, List.singleton_inj.1 hy⟩
    · rw [List.concat_eq_append] at hlater
      rw [hlater, ← List.cons_append, ← List.append_assoc] at h
      obtain ⟨hxs, hy⟩ := List.append_inj' h rfl
      rw [List.singleton_inj.1 hy]
      exact Or.inr ⟨ys, hlater, hxs⟩
  · intro h
    rcases h with ⟨hlater, hxs, hy⟩ | ⟨ys, hlater, hxs⟩
    · rw [hlater, hxs, hy]
    · rw [hlater, hxs, List.append_assoc, List.cons_append]

theorem not_lastWith_nil : ¬ LastWith mark [] x later := by
  intro ⟨⟨earlier, h⟩, _, _⟩
  exact List.append_ne_nil_of_right_ne_nil _ (List.cons_ne_nil x later) h.symm

theorem lastWith_concat_of_mark (hy : mark y) :
    LastWith mark (xs ++ [y]) x later ↔ x = y ∧ later = [] := by
  constructor
  · intro ⟨⟨earlier, h⟩, _, hlater⟩
    rcases concat_eq_append_cons.1 h with ⟨hnil, _, hyx⟩ | ⟨ys, hys, _⟩
    · exact ⟨hyx.symm, hnil⟩
    · have hmem : y ∈ later := by
        rw [hys]
        exact List.mem_concat_self
      exact absurd hy (hlater y hmem)
  · intro ⟨hx, hnil⟩
    rw [hx, hnil]
    exact ⟨⟨xs, rfl⟩, hy, nofun⟩

theorem lastWith_concat_of_not_mark (hy : ¬ mark y) :
    LastWith mark (xs ++ [y]) x later ↔ ∃ ys, later = ys ++ [y] ∧ LastWith mark xs x ys := by
  constructor
  · intro ⟨⟨earlier, h⟩, hx, hlater⟩
    rcases concat_eq_append_cons.1 h with ⟨_, _, hyx⟩ | ⟨ys, hys, hxs⟩
    · rw [hyx] at hy
      exact absurd hx hy
    · rw [hys] at hlater
      exact ⟨ys, hys, ⟨earlier, hxs⟩, hx, fun z hz => hlater z (List.mem_append_left _ hz)⟩
  · intro ⟨ys, hys, ⟨earlier, hxs⟩, hx, hunmarked⟩
    rw [hys]
    refine ⟨⟨earlier, concat_eq_append_cons.2 (Or.inr ⟨ys, rfl, hxs⟩)⟩, hx, fun z hz => ?_⟩
    rcases List.mem_append.1 hz with hz | hz
    · exact hunmarked z hz
    · rw [List.mem_singleton.1 hz]
      exact hy

/-- What is said of the last of its kind and of what comes behind it, when one
more thing comes. -/
theorem exists_lastWith_concat {Q : α → List α → Prop} :
    (∃ x later, LastWith mark (xs ++ [y]) x later ∧ Q x later) ↔
      mark y ∧ Q y [] ∨
      ¬ mark y ∧ ∃ x later, LastWith mark xs x later ∧ Q x (later ++ [y]) := by
  by_cases hy : mark y
  · simp only [lastWith_concat_of_mark hy, hy]
    constructor
    · intro ⟨x, later, ⟨hx, hlater⟩, hQ⟩
      rw [hx, hlater] at hQ
      exact Or.inl ⟨trivial, hQ⟩
    · intro h
      rcases h with ⟨_, hQ⟩ | ⟨hno, _⟩
      · exact ⟨y, [], ⟨rfl, rfl⟩, hQ⟩
      · exact absurd trivial hno
  · simp only [lastWith_concat_of_not_mark hy, hy]
    constructor
    · intro ⟨x, later, ⟨ys, hlater, hlast⟩, hQ⟩
      rw [hlater] at hQ
      exact Or.inr ⟨not_false, x, ys, hlast, hQ⟩
    · intro h
      rcases h with ⟨hno, _⟩ | ⟨_, x, later, hlast, hQ⟩
      · exact absurd hno not_false
      · exact ⟨x, later ++ [y], ⟨later, rfl, hlast⟩, hQ⟩

end

/-! ## Chronicles -/

/-- An event with what it finds and what it leads to. -/
structure Moment (σ : Type) where
  event : Event
  session : Session
  player : σ
  turn : Turn σ

/-- The moments of a history, the first one first, and the state they end in. -/
structure Chronicle (σ : Type) where
  moments : List (Moment σ)
  session : Session
  player : σ

section

variable {σ : Type} [Player σ]

def Event.moment (host : HostAction → σ → σ) (s : Session) (p : σ) (e : Event) : Moment σ :=
  ⟨e, s, p, e.turn host s p⟩

def Chronicle.add (host : HostAction → σ → σ) (c : Chronicle σ) (e : Event) : Chronicle σ :=
  let m := e.moment host c.session c.player
  ⟨c.moments ++ [m], m.turn.session, m.turn.player⟩

def chronicle (host : HostAction → σ → σ) (events : List Event) (s : Session) (p : σ) :
    Chronicle σ :=
  events.foldl (Chronicle.add host) ⟨[], s, p⟩

variable {host : HostAction → σ → σ}

/-- What holds at the beginning and is kept by every event holds throughout. -/
theorem chronicle_induction {I : Chronicle σ → Prop} {s : Session} {p : σ} (hbegin : I ⟨[], s, p⟩)
    (hadd : ∀ c e, I c → I (c.add host e)) (events : List Event) :
    I (chronicle host events s p) := by
  induction events using List.reverseRecOn with
  | nil => exact hbegin
  | append_singleton events e ih =>
    have hlast := hadd (chronicle host events s p) e ih
    rw [chronicle, List.foldl_append]
    exact hlast

end
end AudioWalk
