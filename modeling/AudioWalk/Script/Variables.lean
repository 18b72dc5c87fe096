/-!
# Variables

The integer variables of a session, kept in the order of their names, which is
the order of code points and so of their bytes.  The order is part of the type.

`get?_set` and `get?_erase` say what a name reads as after a change.
-/

namespace AudioWalk

structure Variables where
  entries : List (String × Int64)
  ordered : entries.Pairwise fun a b => a.1 < b.1
deriving Repr

namespace Variables

def empty : Variables := ⟨[], .nil⟩

/-- Puts an entry where it belongs, in place of an earlier one of its name. -/
def insertEntry (name : String) (value : Int64) : List (String × Int64) → List (String × Int64)
  | [] => [(name, value)]
  | (n, v) :: rest =>
    if name < n then (name, value) :: (n, v) :: rest
    else if name = n then (name, value) :: rest
    else (n, v) :: insertEntry name value rest

theorem mem_insertEntry {name : String} {value : Int64} {entries : List (String × Int64)}
    {e : String × Int64} (h : e ∈ insertEntry name value entries) :
    e = (name, value) ∨ e ∈ entries := by
  induction entries with
  | nil => exact Or.inl (by simpa [insertEntry] using h)
  | cons entry rest ih =>
    unfold insertEntry at h
    split at h
    · simpa using h
    · split at h
      · rcases List.mem_cons.1 h with h | h
        · exact Or.inl h
        · exact Or.inr (List.mem_cons_of_mem _ h)
      · rcases List.mem_cons.1 h with h | h
        · exact Or.inr (h ▸ List.mem_cons_self)
        · exact (ih h).imp_right (List.mem_cons_of_mem _)

theorem ordered_insertEntry {name : String} {value : Int64} {entries : List (String × Int64)}
    (h : entries.Pairwise fun a b => a.1 < b.1) :
    (insertEntry name value entries).Pairwise fun a b => a.1 < b.1 := by
  induction entries with
  | nil => simp [insertEntry]
  | cons entry rest ih =>
    obtain ⟨hfirst, hrest⟩ := List.pairwise_cons.1 h
    unfold insertEntry
    split
    · next hlt =>
      refine List.pairwise_cons.2 ⟨fun e he => ?_, h⟩
      rcases List.mem_cons.1 he with he | he
      · exact he ▸ hlt
      · exact String.lt_trans hlt (hfirst e he)
    · split
      · next heq => exact List.pairwise_cons.2 ⟨fun e he => heq ▸ hfirst e he, hrest⟩
      · next hlt heq =>
        refine List.pairwise_cons.2 ⟨fun e he => ?_, ih hrest⟩
        rcases mem_insertEntry he with he | he
        · subst he
          have := String.not_lt.1 hlt
          grind
        · exact hfirst e he

/-- The value of a variable, if it is defined. -/
def get? (vs : Variables) (name : String) : Option Int64 := vs.entries.lookup name

def contains (vs : Variables) (name : String) : Bool := (vs.get? name).isSome

theorem contains_eq_false {vs : Variables} {name : String} :
    vs.contains name = false ↔ vs.get? name = none := by
  rw [contains, Option.isSome_eq_false_iff, Option.isNone_iff_eq_none]

/-- Defines a variable, or gives a defined one a new value. -/
def set (vs : Variables) (name : String) (value : Int64) : Variables :=
  ⟨insertEntry name value vs.entries, ordered_insertEntry vs.ordered⟩

def erase (vs : Variables) (name : String) : Variables :=
  ⟨vs.entries.filter (·.1 ≠ name), vs.ordered.filter _⟩

def size (vs : Variables) : Nat := vs.entries.length

def isEmpty (vs : Variables) : Bool := vs.entries.isEmpty

/-- In the order of their names. -/
def toList (vs : Variables) : List (String × Int64) := vs.entries

theorem lookup_entry (n m : String) (v : Int64) (rest : List (String × Int64)) :
    ((m, v) :: rest).lookup n = if n = m then some v else rest.lookup n := by
  by_cases h : n = m
  · simp [h]
  · simp [List.lookup_cons, h, beq_eq_false_iff_ne.2 h]

theorem lookup_insertEntry (name n : String) (value : Int64) (entries : List (String × Int64)) :
    (insertEntry name value entries).lookup n =
      if n = name then some value else entries.lookup n := by
  induction entries with
  | nil => simp [insertEntry, lookup_entry]
  | cons entry rest ih =>
    obtain ⟨m, v⟩ := entry
    simp only [insertEntry]
    split
    · simp only [lookup_entry]
    · split
      · next heq =>
        subst heq
        by_cases h : n = name <;> simp [lookup_entry, h]
      · next hne =>
        simp only [lookup_entry, ih]
        by_cases h : n = m
        · subst h
          simp [Ne.symm hne]
        · simp [h]

theorem get?_set (vs : Variables) (name n : String) (value : Int64) :
    (vs.set name value).get? n = if n = name then some value else vs.get? n :=
  lookup_insertEntry name n value vs.entries

@[simp]
theorem get?_set_self (vs : Variables) (name : String) (value : Int64) :
    (vs.set name value).get? name = some value := by
  simp [get?_set]

theorem get?_set_ne (vs : Variables) {name n : String} (h : n ≠ name) (value : Int64) :
    (vs.set name value).get? n = vs.get? n := by
  simp [get?_set, h]

@[simp]
theorem get?_empty (name : String) : empty.get? name = none := rfl

theorem get?_erase (vs : Variables) (name n : String) :
    (vs.erase name).get? n = if n = name then none else vs.get? n := by
  simp only [get?, erase]
  induction vs.entries with
  | nil => simp
  | cons entry rest ih =>
    obtain ⟨m, v⟩ := entry
    rw [List.filter_cons]
    by_cases hm : m = name
    · subst hm
      simp only [ne_eq, not_true_eq_false, decide_false, Bool.false_eq_true, if_false]
      rw [ih, lookup_entry]
      by_cases h : n = m <;> simp [h]
    · simp only [ne_eq, hm, not_false_eq_true, decide_true, if_true, lookup_entry, ih]
      by_cases h : n = m
      · subst h
        simp [hm]
      · simp [h]

end Variables
end AudioWalk
