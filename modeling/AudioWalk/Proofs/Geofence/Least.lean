import Mathlib.Data.List.Induction

/-!
# The first least of a list

A search that goes through a list once and keeps the best so far, the earlier one
of two equals, ends with the first least element.  `IsFirstLeast` says which one
that is, without the search.
-/

namespace AudioWalk

variable {α : Type}

/-- Nothing behind `x` is less, and everything in front of it is greater. -/
def IsFirstLeast (le : α → α → Prop) (xs : List α) (x : α) : Prop :=
  ∃ before after, xs = before ++ x :: after ∧ (∀ y ∈ before, ¬ le y x) ∧ ∀ y ∈ after, le x y

/-- Takes the best so far, if there is one, and one more. -/
structure KeepsFirst (le : α → α → Prop) (pick : Option α → α → α) : Prop where
  none : ∀ x, pick none x = x
  kept : ∀ {best x}, le best x → pick (some best) x = best
  replaced : ∀ {best x}, ¬ le best x → pick (some best) x = x

def best? (pick : Option α → α → α) (xs : List α) : Option α :=
  xs.foldl (fun best? x => some (pick best? x)) none

theorem best?_concat (pick : Option α → α → α) (xs : List α) (x : α) :
    best? pick (xs ++ [x]) = some (pick (best? pick xs) x) := by
  rw [best?, List.foldl_append]
  rfl

variable {le : α → α → Prop} {pick : Option α → α → α}

theorem best?_eq_none_iff {xs : List α} : best? pick xs = none ↔ xs = [] := by
  induction xs using List.reverseRecOn with
  | nil => exact ⟨fun _ => rfl, fun _ => rfl⟩
  | append_singleton xs x ih =>
    rw [best?_concat]
    exact ⟨nofun, fun h => absurd h (List.append_ne_nil_of_right_ne_nil xs (List.cons_ne_nil x []))⟩

namespace KeepsFirst

theorem pick_some (h : KeepsFirst le pick) (best x : α) :
    le best x ∧ pick (some best) x = best ∨ ¬ le best x ∧ pick (some best) x = x := by
  by_cases hle : le best x
  · exact Or.inl ⟨hle, h.kept hle⟩
  · exact Or.inr ⟨hle, h.replaced hle⟩

theorem mem_of_best? (h : KeepsFirst le pick) {xs : List α} {x : α}
    (hx : best? pick xs = some x) : x ∈ xs := by
  induction xs using List.reverseRecOn generalizing x with
  | nil => cases hx
  | append_singleton xs y ih =>
    rw [best?_concat, Option.some.injEq] at hx
    rw [List.mem_append, List.mem_singleton]
    cases hbest : best? pick xs with
    | none =>
      rw [hbest, h.none] at hx
      exact Or.inr hx.symm
    | some best =>
      rw [hbest] at hx
      rcases h.pick_some best y with ⟨_, hpick⟩ | ⟨_, hpick⟩
      · rw [← hx, hpick]
        exact Or.inl (ih hbest)
      · rw [← hx, hpick]
        exact Or.inr rfl

/-- The search ends with the first least element, provided that any two elements
can be compared. -/
theorem isFirstLeast (h : KeepsFirst le pick) (htrans : ∀ {x y z}, le x y → le y z → le x z)
    {xs : List α} (htotal : ∀ x ∈ xs, ∀ y ∈ xs, le x y ∨ le y x) {x : α}
    (hx : best? pick xs = some x) : IsFirstLeast le xs x := by
  induction xs using List.reverseRecOn generalizing x with
  | nil => cases hx
  | append_singleton xs y ih =>
    have hxs : ∀ a ∈ xs, ∀ b ∈ xs, le a b ∨ le b a := fun a ha b hb =>
      htotal a (List.mem_append_left _ ha) b (List.mem_append_left _ hb)
    rw [best?_concat, Option.some.injEq] at hx
    cases hbest : best? pick xs with
    | none =>
      rw [hbest, h.none] at hx
      rw [best?_eq_none_iff.1 hbest, ← hx]
      exact ⟨[], [], rfl, List.forall_mem_nil _, List.forall_mem_nil _⟩
    | some best =>
      obtain ⟨before, after, hsplit, hbefore, hafter⟩ := ih hxs hbest
      rw [hbest] at hx
      rcases h.pick_some best y with ⟨hle, hpick⟩ | ⟨hle, hpick⟩
      · rw [← hx, hpick]
        refine ⟨before, after ++ [y], ?_, hbefore, ?_⟩
        · rw [hsplit, List.append_assoc, List.cons_append]
        · rw [List.forall_mem_append, List.forall_mem_singleton]
          exact ⟨hafter, hle⟩
      · rw [← hx, hpick]
        refine ⟨xs, [], rfl, fun z hz hzy => hle ?_, List.forall_mem_nil _⟩
        -- The best so far is at most `z`, so `z` below `y` would keep it.
        have hbestz : le best z := by
          have hmem : best ∈ xs := h.mem_of_best? hbest
          rw [hsplit, List.mem_append, List.mem_cons] at hz
          rcases hz with hz | hz | hz
          · have hz' : z ∈ xs := by
              rw [hsplit]
              exact List.mem_append_left _ hz
            exact (hxs best hmem z hz').resolve_right (hbefore z hz)
          · rw [hz]
            exact (hxs best hmem best hmem).elim id id
          · exact hafter z hz
        exact htrans hbestz hzy

/-- The first least element ends every search, whether or not the others can be
compared. -/
theorem best?_of_isFirstLeast (h : KeepsFirst le pick) {xs : List α} {x : α}
    (hx : IsFirstLeast le xs x) : best? pick xs = some x := by
  obtain ⟨before, after, hsplit, hbefore, hafter⟩ := hx
  rw [hsplit]
  clear hsplit
  induction after using List.reverseRecOn with
  | nil =>
    rw [best?_concat]
    cases hbest : best? pick before with
    | none => rw [h.none]
    | some best => rw [h.replaced (hbefore best (h.mem_of_best? hbest))]
  | append_singleton after y ih =>
    rw [List.forall_mem_append, List.forall_mem_singleton] at hafter
    rw [← List.cons_append, ← List.append_assoc, best?_concat, ih hafter.1, h.kept hafter.2]

/-- An element that compares with none replaces what was found, and is replaced by
what comes next. -/
theorem best?_cut (h : KeepsFirst le pick) {u : α} (hleft : ∀ x, ¬ le u x) (hright : ∀ x, ¬ le x u)
    (front back : List α) :
    best? pick (front ++ u :: back) = some ((best? pick back).getD u) := by
  induction back using List.reverseRecOn with
  | nil =>
    rw [best?_concat]
    cases best? pick front with
    | none => rw [h.none]; rfl
    | some best => rw [h.replaced (hright best)]; rfl
  | append_singleton back y ih =>
    rw [← List.cons_append, ← List.append_assoc, best?_concat, ih, best?_concat]
    cases best? pick back with
    | none =>
      show some (pick (some u) y) = some (pick Option.none y)
      rw [h.replaced (hleft y), h.none]
    | some best => rfl

/-- What is found is at most any element that compares with itself, unless one that
does not comes behind that element. -/
theorem le_or_cut_behind (h : KeepsFirst le pick) (htrans : ∀ {x y z}, le x y → le y z → le x z)
    (hself : ∀ {x y}, le x y → le x x) (htotal : ∀ {x y}, le x x → le y y → le x y ∨ le y x)
    {front back : List α} {x y : α} (hy : le y y)
    (hx : best? pick (front ++ y :: back) = some x) : le x y ∨ ∃ z ∈ back, ¬ le z z := by
  induction back using List.reverseRecOn generalizing x with
  | nil =>
    rw [best?_concat, Option.some.injEq] at hx
    refine Or.inl ?_
    cases hbest : best? pick front with
    | none =>
      rw [hbest, h.none] at hx
      rwa [← hx]
    | some best =>
      rw [hbest] at hx
      rcases h.pick_some best y with ⟨hle, hpick⟩ | ⟨_, hpick⟩
      · rwa [← hx, hpick]
      · rwa [← hx, hpick]
  | append_singleton back w ih =>
    rw [← List.cons_append, ← List.append_assoc, best?_concat, Option.some.injEq] at hx
    cases hbest : best? pick (front ++ y :: back) with
    | none => exact absurd (best?_eq_none_iff.1 hbest) (by simp)
    | some best =>
      rw [hbest] at hx
      rcases ih hbest with hle | ⟨z, hz, hcut⟩
      · by_cases hw : le w w
        · refine Or.inl ?_
          rcases h.pick_some best w with ⟨_, hpick⟩ | ⟨hnot, hpick⟩
          · rwa [← hx, hpick]
          · rw [← hx, hpick]
            exact htrans ((htotal (hself hle) hw).resolve_left hnot) hle
        · exact Or.inr ⟨w, List.mem_append_right _ List.mem_cons_self, hw⟩
      · exact Or.inr ⟨z, List.mem_append_left _ hz, hcut⟩

end KeepsFirst

/-- A search among images is the image of the search, where picking is. -/
theorem best?_map {β : Type} {pick' : Option β → β → β} {f : α → β}
    (hpick : ∀ best? x, pick' (best?.map f) (f x) = f (pick best? x)) (xs : List α) :
    best? pick' (xs.map f) = (best? pick xs).map f := by
  induction xs using List.reverseRecOn with
  | nil => rfl
  | append_singleton xs x ih =>
    rw [List.map_append, List.map_singleton, best?_concat, best?_concat, ih, hpick]
    rfl

theorem IsFirstLeast.le_of_mem {xs : List α} {x : α} (h : IsFirstLeast le xs x)
    (htotal : ∀ x ∈ xs, ∀ y ∈ xs, le x y ∨ le y x) : ∀ y ∈ xs, le x y := by
  obtain ⟨before, after, hsplit, hbefore, hafter⟩ := h
  have hx : x ∈ xs := by
    rw [hsplit]
    exact List.mem_append_right _ List.mem_cons_self
  intro y hy
  have hor := htotal x hx y hy
  rw [hsplit, List.mem_append, List.mem_cons] at hy
  rcases hy with hy | hy | hy
  · exact hor.resolve_right (hbefore y hy)
  · rw [hy] at hor ⊢
    exact hor.elim id id
  · exact hafter y hy

/-- In a list that comes in an order, what comes before the first least element is
greater. -/
theorem IsFirstLeast.not_le_of_before {before : α → α → Prop} {xs : List α} {x y : α}
    (h : IsFirstLeast le xs x) (hordered : xs.Pairwise before)
    (hasymm : ∀ {a b}, before a b → ¬ before b a) (hy : y ∈ xs) (hyx : before y x) :
    ¬ le y x := by
  obtain ⟨front, back, hsplit, hfront, _⟩ := h
  rw [hsplit] at hordered hy
  refine hfront y ((List.mem_append.1 hy).resolve_right fun hrest => ?_)
  have hback := (List.pairwise_cons.1 (List.pairwise_append.1 hordered).2.1).1
  rcases List.mem_cons.1 hrest with hsame | hbehind
  · rw [hsame] at hyx
    exact hasymm hyx hyx
  · exact hasymm hyx (hback y hbehind)

end AudioWalk
