import Mathlib.Algebra.Ring.Int.Defs
import Mathlib.Data.List.DropRight
import Mathlib.Data.List.Sort
import AudioWalk.Proofs.Script.Performed

/-!
# What a run makes of the variables

The value of a variable behind a run is an exact sum, wrapped once: what the last
assignment to the variable gives it, or its old value, or zero, and on top of that
all increments behind that assignment.  The wrap is that of 64 bits in two's
complement, and it does not matter that the run wraps at every increment.

As sums do not depend on an order, neither do increments that stand side by side.
-/

namespace AudioWalk

/-! ## Stores are told by their values -/

namespace Variables

theorem mem_entries_iff {vs : Variables} {name : String} {value : Int64} :
    (name, value) ∈ vs.entries ↔ vs.get? name = some value := by
  obtain ⟨entries, hordered⟩ := vs
  simp only [get?]
  induction entries with
  | nil => simp
  | cons entry rest ih =>
    obtain ⟨other, value'⟩ := entry
    obtain ⟨hfirst, hrest⟩ := List.pairwise_cons.1 hordered
    rw [List.mem_cons, ih hrest, lookup_entry]
    by_cases hname : name = other
    · subst hname
      have hnone : rest.lookup name ≠ some value := by
        intro h
        exact String.lt_irrefl name (hfirst _ ((ih hrest).2 h))
      simp [hnone, eq_comm]
    · simp [hname]

theorem ext_get? {vs ws : Variables} (h : ∀ name, vs.get? name = ws.get? name) : vs = ws := by
  have hirrefl : Std.Irrefl fun a b : String × Int64 => a.1 < b.1 :=
    ⟨fun a => String.lt_irrefl a.1⟩
  have hantisymm : Std.Antisymm fun a b : String × Int64 => a.1 < b.1 :=
    ⟨fun a b hab hba => absurd (String.lt_trans hab hba) (String.lt_irrefl a.1)⟩
  have hentries : vs.entries = ws.entries := by
    refine vs.ordered.eq_of_mem_iff ws.ordered fun e => ?_
    rw [mem_entries_iff, mem_entries_iff, h]
  obtain ⟨entries, hordered⟩ := vs
  obtain ⟨entries', hordered'⟩ := ws
  cases hentries
  rfl

end Variables

namespace Statement

/-! ## Changes -/

/-- The variable that a statement changes, branches aside. -/
def changed? : Statement → Option String
  | assign name _ => some name
  | increment name _ => some name
  | _ => none

/-- The value that a statement gives to a variable, whatever it was. -/
def assigned? (name : String) : Statement → Option Int64
  | assign other value => if other = name then some value else none
  | _ => none

/-- What a statement adds to a variable. -/
def added (name : String) : Statement → Int
  | increment other delta => if other = name then delta.toInt else 0
  | _ => 0

def lastAssigned? (name : String) (ss : List Statement) : Option Int64 :=
  (ss.filterMap (assigned? name)).getLast?

/-- What stands behind the last assignment to a variable, or all if there is none. -/
def sinceAssigned (name : String) (ss : List Statement) : List Statement :=
  ss.rtakeWhile fun s => (s.assigned? name).isNone

/-- The value of a variable behind some statements, as an integer of any size. -/
def total (vs : Variables) (name : String) (ss : List Statement) : Int :=
  ((lastAssigned? name ss).getD ((vs.get? name).getD 0)).toInt +
    ((sinceAssigned name ss).map (added name)).sum

variable {vs : Variables} {name : String} {s : Statement} {ss : List Statement}

theorem total_nil : total vs name [] = ((vs.get? name).getD 0).toInt := Int.add_zero _

theorem total_concat_of_assigned {value : Int64} (h : s.assigned? name = some value) :
    total vs name (ss ++ [s]) = value.toInt := by
  have hlast : lastAssigned? name (ss ++ [s]) = some value := by
    rw [lastAssigned?, List.filterMap_append, List.filterMap_cons_some h, List.filterMap_nil,
      List.getLast?_concat]
  have hsince : sinceAssigned name (ss ++ [s]) = [] :=
    List.rtakeWhile_concat_neg _ _ _ (by simp [h])
  rw [total, hlast, hsince]
  exact Int.add_zero _

theorem total_concat_of_not_assigned (h : s.assigned? name = none) :
    total vs name (ss ++ [s]) = total vs name ss + s.added name := by
  have hlast : lastAssigned? name (ss ++ [s]) = lastAssigned? name ss := by
    rw [lastAssigned?, List.filterMap_append, List.filterMap_cons_none h, List.filterMap_nil,
      List.append_nil, lastAssigned?]
  have hsince : sinceAssigned name (ss ++ [s]) = sinceAssigned name ss ++ [s] :=
    List.rtakeWhile_concat_pos _ _ _ (by simp [h])
  rw [total, hlast, hsince, List.map_append, List.sum_append, total]
  simp only [List.map_cons, List.map_nil, List.sum_cons, List.sum_nil]
  omega

/-! ## What a change does to a value -/

theorem get?_update_of_not_changed (h : s.changed? ≠ some name) :
    (update vs s).get? name = vs.get? name := by
  cases s with
  | assign other value =>
    exact Variables.get?_set_ne vs (fun hname => h (congrArg some hname.symm)) _
  | increment other delta =>
    exact Variables.get?_set_ne vs (fun hname => h (congrArg some hname.symm)) _
  | play clip text volume => rfl
  | branch conditions whenTrue whenFalse => rfl
  | ending => rfl

theorem isSome_update : ((update vs s).get? name).isSome ↔
    (vs.get? name).isSome ∨ s.changed? = some name := by
  by_cases h : s.changed? = some name
  · simp only [h, or_true, iff_true]
    cases s with
    | assign other value =>
      cases h
      rw [update, Variables.get?_set_self]
      rfl
    | increment other delta =>
      cases h
      rw [update, Variables.get?_set_self]
      rfl
    | play clip text volume => cases h
    | branch conditions whenTrue whenFalse => cases h
    | ending => cases h
  · rw [get?_update_of_not_changed h]
    simp only [h, or_false]

theorem get?_update_of_assigned {value : Int64} (h : s.assigned? name = some value) :
    (update vs s).get? name = some value := by
  cases s with
  | assign other value' =>
    rw [assigned?] at h
    split at h
    · next hname =>
      cases h
      rw [update, hname, Variables.get?_set_self]
    · cases h
  | increment other delta => cases h
  | play clip text volume => cases h
  | branch conditions whenTrue whenFalse => cases h
  | ending => cases h

theorem getD_update_of_not_assigned (h : s.assigned? name = none) :
    ((update vs s).get? name).getD 0 = (vs.get? name).getD 0 + .ofInt (s.added name) := by
  by_cases hchanged : s.changed? = some name
  · cases s with
    | increment other delta =>
      cases hchanged
      rw [update, Variables.get?_set_self, added, if_pos rfl, Int64.ofInt_toInt, Option.getD_some]
    | assign other value =>
      cases hchanged
      rw [assigned?, if_pos rfl] at h
      cases h
    | play clip text volume => cases hchanged
    | branch conditions whenTrue whenFalse => cases hchanged
    | ending => cases hchanged
  · have hadded : s.added name = 0 := by
      cases s with
      | increment other delta => exact if_neg fun hname => hchanged (congrArg some hname)
      | assign other value => rfl
      | play clip text volume => rfl
      | branch conditions whenTrue whenFalse => rfl
      | ending => rfl
    rw [get?_update_of_not_changed hchanged, hadded]
    exact (Int64.add_zero _).symm

/-! ## What all changes do -/

theorem isSome_updateAll : ((updateAll vs ss).get? name).isSome ↔
    (vs.get? name).isSome ∨ ∃ s ∈ ss, s.changed? = some name := by
  induction ss generalizing vs with
  | nil => simp [updateAll]
  | cons s rest ih =>
    rw [updateAll, List.foldl_cons]
    refine ih.trans ?_
    rw [isSome_update, List.exists_mem_cons_iff, or_assoc]

theorem get?_updateAll_of_not_changed (h : ¬ ∃ s ∈ ss, s.changed? = some name) :
    (updateAll vs ss).get? name = vs.get? name := by
  induction ss generalizing vs with
  | nil => rfl
  | cons s rest ih =>
    rw [List.exists_mem_cons_iff, not_or] at h
    rw [updateAll, List.foldl_cons]
    exact (ih h.2).trans (get?_update_of_not_changed h.1)

/-- Wrapping at every change comes to wrapping once. -/
theorem getD_updateAll : ((updateAll vs ss).get? name).getD 0 = .ofInt (total vs name ss) := by
  induction ss using List.reverseRecOn with
  | nil => rw [total_nil, Int64.ofInt_toInt, updateAll, List.foldl_nil]
  | append_singleton ss s ih =>
    rw [updateAll_append]
    show ((update (updateAll vs ss) s).get? name).getD 0 = _
    cases h : s.assigned? name with
    | some value =>
      rw [get?_update_of_assigned h, total_concat_of_assigned h, Int64.ofInt_toInt,
        Option.getD_some]
    | none =>
      rw [getD_update_of_not_assigned h, total_concat_of_not_assigned h, Int64.ofInt_add, ih]

example : (updateAll .empty [assign "n" Int64.maxValue, increment "n" 1]).get? "n" =
    some Int64.minValue := rfl

/-- Only changes count. -/
theorem updateAll_filter :
    updateAll vs (ss.filter fun s => s.changed?.isSome) = updateAll vs ss := by
  induction ss generalizing vs with
  | nil => rfl
  | cons s rest ih =>
    cases s with
    | assign other value => exact ih
    | increment other delta => exact ih
    | play clip text volume => exact ih
    | branch conditions whenTrue whenFalse => exact ih
    | ending => exact ih

/-! ## Increments side by side -/

theorem update_comm (vs : Variables) (name name' : String) (delta delta' : Int64) :
    update (update vs (increment name delta)) (increment name' delta') =
      update (update vs (increment name' delta')) (increment name delta) := by
  refine Variables.ext_get? fun n => ?_
  simp only [update, Variables.get?_set]
  by_cases hsame : name' = name
  · subst hsame
    by_cases hn : n = name'
    · simp only [hn, if_true, Option.getD_some, Int64.add_assoc, Int64.add_comm delta]
    · simp only [hn, if_false]
  · by_cases hn : n = name
    · subst hn
      simp only [Ne.symm hsame, if_true, if_false]
    · simp only [hn, hsame, Ne.symm hsame, if_false]

theorem updateAll_perm {block block' : List Statement}
    (hblock : ∀ s ∈ block, ∃ name delta, s = .increment name delta) (h : block.Perm block')
    (vs : Variables) : updateAll vs block' = updateAll vs block := by
  refine (h.foldl_eq' (fun s hs s' hs' vs => ?_) vs).symm
  obtain ⟨name, delta, rfl⟩ := hblock s hs
  obtain ⟨name', delta', rfl⟩ := hblock s' hs'
  exact update_comm vs name name' delta delta'

variable {σ : Type} [Player σ] {title? : Option String}

/-- Increments do nothing but update the store. -/
theorem runAll_increments {block : List Statement}
    (hblock : ∀ s ∈ block, ∃ name delta, s = .increment name delta) (vs : Variables) (p : σ) :
    runAll (runInBranch title?) block vs p = .nothing (updateAll vs block) p := by
  induction block generalizing vs with
  | nil => rfl
  | cons s rest ih =>
    obtain ⟨⟨name, delta, rfl⟩, hrest⟩ := List.forall_mem_cons.1 hblock
    rw [runAll, runInBranch_increment, Run.nothing_andThen]
    exact ih hrest _

theorem runAll_increments_inCircle {block : List Statement}
    (hblock : ∀ s ∈ block, ∃ name delta, s = .increment name delta) (vs : Variables) (p : σ) :
    runAll (run title?) block vs p = .nothing (updateAll vs block) p := by
  have hplain : withoutBranches block = block := by
    refine List.filter_eq_self.2 fun s hs => ?_
    obtain ⟨name, delta, rfl⟩ := hblock s hs
    rfl
  rw [← runAll_increments hblock, runAll_runInBranch, hplain]

/-- The changes that a run makes, in their order: the assignments and increments
that it performs, in the circle and in the branches that it takes. -/
def changesBy (title? : Option String) (ss : List Statement) (vs : Variables) (p : σ) :
    List Statement :=
  (performedBy title? ss vs p).filter fun s => s.changed?.isSome

/-- A variable is defined behind a run if it was before, or if a change was made to
it.  Its value is then the exact total, wrapped to 64 bits; a variable without a
change keeps its value.  So a block of increments may stand in any order, at any
place of a script. -/
theorem variables_behind_run (ss : List Statement) (vs : Variables) (p : σ) :
    let store := (execute title? ss vs p).store
    let changes := changesBy title? ss vs p
    (∀ name,
      (store.contains name ↔ vs.contains name ∨ ∃ s ∈ changes, s.changed? = some name) ∧
      ((∃ s ∈ changes, s.changed? = some name) →
        ∃ value, store.get? name = some value ∧
          value.toInt = (total vs name changes).bmod Int64.size) ∧
      ((¬ ∃ s ∈ changes, s.changed? = some name) → store.get? name = vs.get? name)) ∧
    ∀ block block' ss', (∀ s ∈ block, ∃ name delta, s = .increment name delta) →
      block.Perm block' → Replaced block block' ss ss' →
      execute title? ss' vs p = execute title? ss vs p := by
  intro store changes
  have hstore : store = updateAll vs changes :=
    (accounts_runAll ss vs p).store.trans updateAll_filter.symm
  refine ⟨fun name => ⟨?_, fun hchanged => ?_, fun hunchanged => ?_⟩, ?_⟩
  · rw [hstore]
    exact isSome_updateAll
  · obtain ⟨value, hvalue⟩ : ∃ value, store.get? name = some value := by
      rw [← Option.isSome_iff_exists, hstore]
      exact isSome_updateAll.2 (Or.inr hchanged)
    have htotal : value = .ofInt (total vs name changes) := by
      rw [← getD_updateAll, ← hstore, hvalue, Option.getD_some]
    exact ⟨value, hvalue, by rw [htotal, Int64.toInt_ofInt]⟩
  · rw [hstore]
    exact get?_updateAll_of_not_changed hunchanged
  · intro block block' ss' hblock hperm hreplaced
    have hblock' : ∀ s ∈ block', ∃ name delta, s = .increment name delta :=
      fun s hs => hblock s (hperm.mem_iff.2 hs)
    have hrun : runAll (run title?) block' = runAll (σ := σ) (run title?) block := by
      funext vs p
      rw [runAll_increments_inCircle hblock, runAll_increments_inCircle hblock',
        updateAll_perm hblock hperm]
    have hinBranch : runAll (runInBranch title?) block' =
        runAll (σ := σ) (runInBranch title?) block := by
      funext vs p
      rw [runAll_increments hblock, runAll_increments hblock', updateAll_perm hblock hperm]
    rw [execute, hreplaced.runAll_inCircle hrun hinBranch]
    rfl

end Statement
end AudioWalk
