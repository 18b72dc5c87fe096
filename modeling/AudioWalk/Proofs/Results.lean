import Mathlib.Data.List.Forall2

/-!
# Results

A chain of steps that may fail has a result where every step has one, and fails as
the first step that fails.
-/

namespace AudioWalk

variable {ε α β σ : Type}

theorem pure_eq_ok {a b : α} : (pure a : Except ε α) = .ok b ↔ b = a :=
  ⟨fun h => (Except.ok.inj h).symm, fun h => by rw [h]; rfl⟩

theorem bind_eq_ok {x : Except ε α} {f : α → Except ε β} {b : β} :
    x >>= f = .ok b ↔ ∃ a, x = .ok a ∧ f a = .ok b := by
  cases x with
  | error fault => simp [bind, Except.bind]
  | ok a => simp [bind, Except.bind]

theorem bind_eq_error {x : Except ε α} {f : α → Except ε β} {fault : ε} :
    x >>= f = .error fault ↔ x = .error fault ∨ ∃ a, x = .ok a ∧ f a = .error fault := by
  cases x with
  | error fault' => simp [bind, Except.bind]
  | ok a => simp [bind, Except.bind]

/-- A last step that only packs a result never fails. -/
theorem bind_pure_eq_error {x : Except ε α} {g : α → β} {fault : ε} :
    (x >>= fun a => pure (g a)) = .error fault ↔ x = .error fault := by
  cases x with
  | error fault' => simp [bind, Except.bind]
  | ok a => simp [bind, Except.bind, pure, Except.pure]

theorem map_eq_ok {x : Except ε α} {f : α → β} {b : β} :
    x.map f = .ok b ↔ ∃ a, x = .ok a ∧ b = f a := by
  cases x with
  | error fault => simp [Except.map]
  | ok a => simp [Except.map, eq_comm]

theorem map_eq_error {x : Except ε α} {f : α → β} {fault : ε} :
    x.map f = .error fault ↔ x = .error fault := by
  cases x with
  | error fault' => simp [Except.map]
  | ok a => simp [Except.map]

theorem mapM_eq_ok {f : α → Except ε β} {xs : List α} {ys : List β} :
    xs.mapM f = .ok ys ↔ List.Forall₂ (fun x y => f x = .ok y) xs ys := by
  induction xs generalizing ys with
  | nil => rw [List.mapM_nil, pure_eq_ok, List.forall₂_nil_left_iff]
  | cons x xs ih =>
    rw [List.mapM_cons, bind_eq_ok, List.forall₂_cons_left_iff]
    refine exists_congr fun y => ?_
    rw [bind_eq_ok]
    constructor
    · intro ⟨hy, rest, hrest, h⟩
      exact ⟨rest, hy, ih.1 hrest, pure_eq_ok.1 h⟩
    · intro ⟨rest, hy, hrest, h⟩
      exact ⟨hy, rest, ih.2 hrest, pure_eq_ok.2 h⟩

theorem mapM_congr {f g : α → Except ε β} {xs : List α} (h : ∀ x ∈ xs, f x = g x) :
    xs.mapM f = xs.mapM g := by
  induction xs with
  | nil => rfl
  | cons x xs ih =>
    obtain ⟨hx, hrest⟩ := List.forall_mem_cons.1 h
    rw [List.mapM_cons, List.mapM_cons, hx, ih hrest]

theorem exists_mapM_eq_ok {f : α → Except ε β} {xs : List α} :
    (∃ ys, xs.mapM f = .ok ys) ↔ ∀ x ∈ xs, ∃ y, f x = .ok y := by
  induction xs with
  | nil =>
    refine ⟨fun _ x hx => ?_, fun _ => ⟨[], rfl⟩⟩
    cases hx
  | cons x xs ih =>
    rw [List.forall_mem_cons, ← ih]
    constructor
    · intro ⟨ys, h⟩
      obtain ⟨y, rest, hy, hrest, -⟩ := List.forall₂_cons_left_iff.1 (mapM_eq_ok.1 h)
      exact ⟨⟨y, hy⟩, rest, mapM_eq_ok.2 hrest⟩
    · intro ⟨⟨y, hy⟩, rest, hrest⟩
      exact ⟨y :: rest, mapM_eq_ok.2 (.cons hy (mapM_eq_ok.1 hrest))⟩

/-- `x` is the first of some things that has a mark. -/
structure FirstWith (mark : α → Prop) (xs : List α) (x : α) : Prop where
  split : ∃ earlier later, xs = earlier ++ x :: later ∧ ∀ y ∈ earlier, ¬ mark y
  marked : mark x

theorem FirstWith.mem {mark : α → Prop} {xs : List α} {x : α} (h : FirstWith mark xs x) :
    x ∈ xs := by
  obtain ⟨earlier, later, hsplit, _⟩ := h.split
  rw [hsplit]
  exact List.mem_append_right _ List.mem_cons_self

theorem firstWith_cons {mark : α → Prop} {x y : α} {xs : List α} :
    FirstWith mark (x :: xs) y ↔ mark x ∧ y = x ∨ ¬ mark x ∧ FirstWith mark xs y := by
  constructor
  · intro ⟨⟨earlier, later, hsplit, hearlier⟩, hy⟩
    cases earlier with
    | nil =>
      cases hsplit
      exact Or.inl ⟨hy, rfl⟩
    | cons z earlier =>
      cases hsplit
      obtain ⟨hx, hrest⟩ := List.forall_mem_cons.1 hearlier
      exact Or.inr ⟨hx, ⟨earlier, later, rfl, hrest⟩, hy⟩
  · intro h
    rcases h with ⟨hx, hyx⟩ | ⟨hx, ⟨earlier, later, hsplit, hearlier⟩, hy⟩
    · rw [hyx]
      exact ⟨⟨[], xs, rfl, List.forall_mem_nil _⟩, hx⟩
    · rw [hsplit]
      exact ⟨⟨x :: earlier, later, rfl, List.forall_mem_cons.2 ⟨hx, hearlier⟩⟩, hy⟩

theorem find?_eq_some_iff_firstWith {p : α → Bool} {xs : List α} {x : α} :
    xs.find? p = some x ↔ FirstWith (fun x => p x = true) xs x := by
  rw [List.find?_eq_some_iff_append]
  simp only [Bool.not_eq_true']
  constructor
  · intro ⟨hx, earlier, later, hsplit, hearlier⟩
    exact ⟨⟨earlier, later, hsplit, fun y hy => Bool.not_eq_true _ ▸ hearlier y hy⟩, hx⟩
  · intro ⟨⟨earlier, later, hsplit, hearlier⟩, hx⟩
    exact ⟨hx, earlier, later, hsplit, fun y hy => eq_false_of_ne_true (hearlier y hy)⟩

theorem mapM_eq_error {f : α → Except ε β} {xs : List α} {e : ε} :
    xs.mapM f = .error e ↔
      ∃ x, FirstWith (fun x => ∃ e, f x = .error e) xs x ∧ f x = .error e := by
  induction xs with
  | nil =>
    constructor
    · intro h
      cases h
    · intro ⟨x, hx, _⟩
      exact absurd hx.mem List.not_mem_nil
  | cons x xs ih =>
    simp only [List.mapM_cons, firstWith_cons]
    cases hx : f x with
    | error e' =>
      constructor
      · intro h
        cases h
        exact ⟨x, Or.inl ⟨⟨e, rfl⟩, rfl⟩, hx⟩
      · rintro ⟨y, ⟨_, rfl⟩ | ⟨hnot, _⟩, hy⟩
        · have hsame : (Except.error e' : Except ε β) = .error e := hx.symm.trans hy
          cases hsame
          rfl
        · exact absurd ⟨e', rfl⟩ hnot
    | ok b =>
      have hpassed : ¬ ∃ e, (Except.ok b : Except ε β) = .error e := nofun
      have hbind : (do let y ← (Except.ok b : Except ε β); let ys ← xs.mapM f; pure (y :: ys)) =
          .error e ↔ xs.mapM f = .error e := by
        cases xs.mapM f with
        | error e' => exact Iff.rfl
        | ok ys => exact ⟨nofun, nofun⟩
      rw [hbind, ih]
      simp only [hpassed, false_and, not_false_eq_true, true_and, false_or]

theorem eq_nil_iff_of_forall₂ {R : α → β → Prop} {xs : List α} {ys : List β}
    (h : List.Forall₂ R xs ys) : xs = [] ↔ ys = [] := by
  rw [← List.length_eq_zero_iff, h.length_eq, List.length_eq_zero_iff]

theorem exists_of_forall₂ {R : α → β → Prop} {xs : List α} {ys : List β}
    (h : List.Forall₂ R xs ys) : ∀ y ∈ ys, ∃ x ∈ xs, R x y := by
  induction h with
  | nil => exact List.forall_mem_nil _
  | cons hxy _ ih =>
    refine List.forall_mem_cons.2 ⟨⟨_, List.mem_cons_self, hxy⟩, fun y hy => ?_⟩
    obtain ⟨x, hx, hR⟩ := ih y hy
    exact ⟨x, List.mem_cons_of_mem _ hx, hR⟩

theorem foldlM_cons_eq_ok {f : σ → α → Except ε σ} {x : α} {xs : List α} {s t : σ} :
    (x :: xs).foldlM f s = .ok t ↔ ∃ next, f s x = .ok next ∧ xs.foldlM f next = .ok t := by
  rw [List.foldlM_cons, bind_eq_ok]

/-- A run fails in the step that fails, and all steps in front of it succeed. -/
theorem foldlM_eq_error {f : σ → α → Except ε σ} {xs : List α} {s : σ} {e : ε} :
    xs.foldlM f s = .error e ↔
      ∃ before x after t, xs = before ++ x :: after ∧ before.foldlM f s = .ok t ∧
        f t x = .error e := by
  induction xs generalizing s with
  | nil =>
    constructor
    · intro h
      cases h
    · intro ⟨before, x, after, _, hsplit, _⟩
      exact absurd hsplit.symm (List.append_ne_nil_of_right_ne_nil _ (List.cons_ne_nil _ _))
  | cons x xs ih =>
    rw [List.foldlM_cons, bind_eq_error]
    simp only [ih]
    constructor
    · intro h
      rcases h with hx | ⟨next, hnext, before, y, after, t, hsplit, hbefore, hy⟩
      · exact ⟨[], x, xs, s, rfl, rfl, hx⟩
      · exact ⟨x :: before, y, after, t, by rw [hsplit, List.cons_append],
          foldlM_cons_eq_ok.2 ⟨next, hnext, hbefore⟩, hy⟩
    · intro ⟨before, y, after, t, hsplit, hbefore, hy⟩
      cases before with
      | nil =>
        obtain ⟨hx, _⟩ := List.cons.inj hsplit
        rw [List.foldlM_nil, pure_eq_ok] at hbefore
        rw [hx, ← hbefore]
        exact Or.inl hy
      | cons z before =>
        obtain ⟨hx, hrest⟩ := List.cons.inj hsplit
        obtain ⟨next, hnext, hbefore⟩ := foldlM_cons_eq_ok.1 hbefore
        rw [← hx] at hnext
        exact Or.inr ⟨next, hnext, before, y, after, t, hrest, hbefore, hy⟩

/-- What each step preserves, told in terms of the elements that are done. -/
theorem foldlM_invariant {f : σ → α → Except ε σ} {I : List α → σ → Prop}
    (hstep : ∀ {done s x next}, I done s → f s x = .ok next → I (done ++ [x]) next)
    {done xs : List α} {s t : σ} (hs : I done s) (h : xs.foldlM f s = .ok t) :
    I (done ++ xs) t := by
  induction xs generalizing done s with
  | nil =>
    rw [List.foldlM_nil, pure_eq_ok] at h
    rw [h, List.append_nil]
    exact hs
  | cons x xs ih =>
    obtain ⟨next, hnext, hrest⟩ := foldlM_cons_eq_ok.1 h
    have hall := ih (hstep hs hnext) hrest
    rwa [List.append_assoc] at hall

end AudioWalk
