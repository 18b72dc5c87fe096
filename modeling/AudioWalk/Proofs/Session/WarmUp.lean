import AudioWalk.Session.WarmUp

/-!
# Counting readings

A tracker counts in 32 bits and stays at the greatest of them.  `Counts` compares
it with a count that has no bounds, and `Counts.fix` says from that count alone
what the next reading is.  The bound can be told from it only where the threshold
is the bound itself.

`fixes_by_number` draws the sum for whole runs.  Each reading is what its number
makes it, however many there are, as long as the threshold is below the bound.  A
threshold that is the bound is met again by every later reading.
-/

namespace AudioWalk
namespace Tracker

/-- The greatest number a tracker can count to. -/
def limit : Nat := UInt32.size - 1

theorem toNat_succ (received : UInt32) :
    (succ received).toNat = min (received.toNat + 1) limit := by
  have hlt := received.toNat_lt
  have hlimit : (UInt32.ofNat (UInt32.size - 1)).toNat = limit := rfl
  unfold succ
  split
  · next heq =>
    rw [heq, hlimit]
    omega
  · next hne =>
    have hne' : received.toNat ≠ limit := fun h => hne (UInt32.toNat_inj.1 (h.trans hlimit.symm))
    have hbelow : received.toNat < limit := by
      unfold limit UInt32.size at *
      omega
    have hsum : (received + 1).toNat = received.toNat + 1 := by
      rw [UInt32.toNat_add]
      show (received.toNat + 1) % 2 ^ 32 = received.toNat + 1
      unfold limit UInt32.size at hbelow
      omega
    omega

/-- The number of the first reading that counts, by a setting. -/
def firstUsable (warmUpReadings : UInt32) : Nat := max warmUpReadings.toNat 1

theorem toNat_threshold (warmUpReadings : UInt32) :
    (max warmUpReadings 1).toNat = firstUsable warmUpReadings := by
  show (if warmUpReadings ≤ 1 then 1 else warmUpReadings : UInt32).toNat = _
  have hone : (1 : UInt32).toNat = 1 := rfl
  unfold firstUsable
  split
  · next hle =>
    have hle' := UInt32.le_iff_toNat_le.1 hle
    omega
  · next hgt =>
    have hgt' := mt UInt32.le_iff_toNat_le.2 hgt
    omega

/-- A tracker with this setting has taken `n` readings since it began to count. -/
structure Counts (warmUpReadings : UInt32) (n : Nat) (t : Tracker) : Prop where
  threshold : t.threshold = max warmUpReadings 1
  received : t.received.toNat = min n limit

theorem counts_new (warmUpReadings : UInt32) : (new warmUpReadings).Counts warmUpReadings 0 :=
  ⟨rfl, rfl⟩

namespace Counts

variable {warmUpReadings : UInt32} {n : Nat} {t : Tracker}

theorem reset (h : t.Counts warmUpReadings n) : t.reset.Counts warmUpReadings 0 :=
  ⟨h.threshold, rfl⟩

theorem record (h : t.Counts warmUpReadings n) (r : Reading) :
    (t.record r).2.Counts warmUpReadings (n + 1) := by
  refine ⟨h.threshold, ?_⟩
  show (succ t.received).toNat = _
  rw [toNat_succ, h.received]
  omega

/-- What the next reading is. -/
theorem fix (h : t.Counts warmUpReadings n) (r : Reading) :
    (t.record r).1 =
      if min (n + 1) limit < firstUsable warmUpReadings then .warmingUp
      else if min (n + 1) limit = firstUsable warmUpReadings then .first
      else .subsequent := by
  have hnext : (succ t.received).toNat = min (n + 1) limit := (h.record r).received
  unfold Tracker.record
  simp only [UInt32.lt_iff_toNat_lt, ← UInt32.toNat_inj, hnext, h.threshold, toNat_threshold]

/-- Where the setting is below the limit, the reading of that number is the first
that counts, and the only one: the count does not stay there. -/
theorem fix_of_lt_limit (h : t.Counts warmUpReadings n)
    (hw : warmUpReadings.toNat < UInt32.size - 1) (r : Reading) :
    ((t.record r).1 = .warmingUp ↔ n + 1 < firstUsable warmUpReadings) ∧
      ((t.record r).1 = .first ↔ n + 1 = firstUsable warmUpReadings) := by
  have hlimit : firstUsable warmUpReadings < limit := by
    unfold firstUsable limit UInt32.size at *
    omega
  rw [h.fix r]
  split
  · exact ⟨iff_of_true rfl (by omega), iff_of_false nofun (by omega)⟩
  · split
    · exact ⟨iff_of_false nofun (by omega), iff_of_true rfl (by omega)⟩
    · exact ⟨iff_of_false nofun (by omega), iff_of_false nofun (by omega)⟩

end Counts

/-! ## Readings by their number -/

/-- What the readings of a run count as, in their order. -/
def fixes (t : Tracker) : List Reading → List Fix
  | [] => []
  | r :: rs => (t.record r).1 :: fixes (t.record r).2 rs

/-- What reading number `n` is to count as, the first one being number one. -/
def numbered (threshold n : Nat) : Fix :=
  if n < threshold then .warmingUp else if n = threshold then .first else .subsequent

/-- Counting no further than to the limit makes a difference only where the limit is
the threshold. -/
theorem numbered_min_eq_iff {threshold n : Nat} (h : threshold ≤ limit) :
    numbered threshold (min n limit) = numbered threshold n ↔ threshold < limit ∨ n ≤ limit := by
  by_cases hn : n ≤ limit
  · rw [Nat.min_eq_left hn]
    exact iff_of_true rfl (Or.inr hn)
  · have hbeyond : numbered threshold n = .subsequent := by
      rw [numbered, if_neg (by omega), if_neg (by omega)]
    rw [Nat.min_eq_right (by omega), hbeyond, numbered, if_neg (by omega)]
    by_cases hlimit : limit = threshold
    · rw [if_pos hlimit]
      exact iff_of_false nofun (by omega)
    · rw [if_neg hlimit]
      exact iff_of_true rfl (Or.inl (by omega))

/-- What can be done with a tracker. -/
inductive Step where
  | record (r : Reading)
  | reset

def step (t : Tracker) : Step → Tracker
  | .record r => (t.record r).2
  | .reset => t.reset

variable {warmUpReadings : UInt32} {n : Nat} {t : Tracker}

theorem Counts.foldl_step (h : t.Counts warmUpReadings n) (steps : List Step) :
    ∃ m, (steps.foldl step t).Counts warmUpReadings m := by
  induction steps generalizing t n with
  | nil => exact ⟨n, h⟩
  | cons s steps ih =>
    cases s with
    | record r => exact ih (h.record r)
    | reset => exact ih h.reset

/-- A run goes on counting where the tracker is. -/
theorem Counts.fixes (h : t.Counts warmUpReadings n) (rs : List Reading) :
    t.fixes rs = (List.range' (n + 1) rs.length).map fun k =>
      numbered (firstUsable warmUpReadings) (min k limit) := by
  induction rs generalizing t n with
  | nil => rfl
  | cons r rs ih =>
    rw [Tracker.fixes, ih (h.record r), h.fix r, List.length_cons, List.range'_succ, List.map_cons]
    rfl

/-- The readings of a new tracker, and of any tracker once it has been reset, count
by their numbers: they warm up below the threshold, the one at the threshold is the
first, and those behind it are subsequent.  A number beyond the limit counts as the
limit.  At every other threshold nothing comes of that in a run of any length; at the
threshold that is the limit every reading from there on counts as the first. -/
theorem fixes_by_number (warmUpReadings : UInt32) (earlier : List Step) (rs : List Reading) :
    let threshold := max warmUpReadings.toNat 1
    let t := (earlier.foldl step (new warmUpReadings)).reset
    (new warmUpReadings).fixes rs = t.fixes rs ∧
    t.fixes rs = (List.range' 1 rs.length).map (fun n => numbered threshold (min n limit)) ∧
    (t.fixes rs = (List.range' 1 rs.length).map (numbered threshold) ↔
      warmUpReadings.toNat < limit ∨ rs.length ≤ limit) := by
  intro threshold t
  have hnew := counts_new warmUpReadings
  obtain ⟨m, hused⟩ := hnew.foldl_step earlier
  have hfixes : t.fixes rs =
      (List.range' 1 rs.length).map fun n => numbered threshold (min n limit) :=
    hused.reset.fixes rs
  have hlimit : threshold ≤ limit ∧ (threshold < limit ↔ warmUpReadings.toNat < limit) := by
    have hlt := warmUpReadings.toNat_lt
    unfold threshold limit UInt32.size
    omega
  refine ⟨(hnew.fixes rs).trans hfixes.symm, hfixes, ?_⟩
  rw [hfixes, List.map_inj_left]
  simp only [numbered_min_eq_iff hlimit.1, hlimit.2, List.mem_range'_1]
  constructor
  · intro h
    by_cases hrs : rs.length ≤ limit
    · exact Or.inr hrs
    · have hlast := h rs.length (by omega)
      exact hlast.imp_right fun hle => absurd hle hrs
  · intro h n hn
    exact h.imp_right fun hle => by omega

/-- At the threshold that is the limit, the reading behind the first is the first once
more, where its number makes it a subsequent one. -/
theorem first_again_behind_limit :
    let t := new (UInt32.ofNat limit)
    let rs := List.replicate (limit + 1) (⟨0, 0, 0⟩ : Reading)
    (t.fixes rs)[limit - 1]? = some .first ∧ (t.fixes rs)[limit]? = some .first ∧
      numbered (max (UInt32.ofNat limit).toNat 1) (limit + 1) = .subsequent := by
  intro t rs
  have hread (i : Nat) (hi : i < limit + 1) :
      (t.fixes rs)[i]? = some (numbered limit (min (i + 1) limit)) := by
    have hlength : rs.length = limit + 1 := List.length_replicate
    have hnumber : 0 + 1 + 1 * i = i + 1 := by omega
    rw [(counts_new (UInt32.ofNat limit)).fixes rs, hlength, List.getElem?_map,
      List.getElem?_range' hi, hnumber]
    rfl
  refine ⟨?_, ?_, ?_⟩
  · rw [hread (limit - 1) (by omega)]
    rfl
  · rw [hread limit (by omega)]
    rfl
  · rfl

end Tracker
end AudioWalk
