import Mathlib.Data.List.Nodup
import AudioWalk.Json.Access

/-!
# Records read member by member

A member of a record is found under its name wherever it stands, and members of other names
make no difference to it.
-/

namespace AudioWalk
namespace Json

/-! ## Values -/

/-- A natural number written with its digits alone. -/
inductive MeansWhole : Json → UInt32 → Prop
  | digits {ds : List Decimal.Digit} {n : UInt32} (h : Decimal.value ds = n.toNat) :
    MeansWhole (.number ⟨false, ds, [], none⟩) n

inductive MeansText : Json → String → Prop
  | characters (s : String) : MeansText (.ofString s) s

theorem MeansWhole.uint32? {j : Json} {n : UInt32} (h : MeansWhole j n) :
    j.uint32? = some n := by
  cases h with
  | digits hvalue =>
    have hsmall : n.toNat < UInt32.size := n.toNat_lt_size
    have hword : n.toNat < UInt64.size := Nat.lt_trans hsmall (by decide)
    simp [Json.uint32?, numeral?, integer?, Decimal.Numeral.isInteger, hvalue, hsmall, hword]

theorem spelled?_points (s : String) : spelled? (points s) = some s := by
  have hread : ∀ cs : List Char, (cs.map Char.toNat).mapM Text.character? = some cs := by
    intro cs
    induction cs with
    | nil => rfl
    | cons c cs ih => rw [List.map_cons, List.mapM_cons, Text.character?_toNat, ih]; rfl
  rw [spelled?, points, hread, Option.map_some, String.ofList_toList]

theorem MeansText.string? {j : Json} {s : String} (h : MeansText j s) : j.string? = some s := by
  cases h with
  | characters s => exact spelled?_points s

/-! ## Members -/

/-- What the members of a record say under a name: nothing, or a thing that a value means.
No name is given twice. -/
inductive Gives {α : Type} (Means : Json → α → Prop) (members : List (String × Json))
    (name : String) : Option α → Prop
  | absent (h : ∀ m ∈ members, m.1 ≠ name) : Gives Means members name none
  | once {before after : List (String × Json)} {j : Json} {a : α}
    (hsplit : members = before ++ (name, j) :: after) (hbefore : ∀ m ∈ before, m.1 ≠ name)
    (hafter : ∀ m ∈ after, m.1 ≠ name) (hmeans : Means j a) : Gives Means members name (some a)

/-- The members with one of some names. -/
def known (names : List String) (members : List (String × Json)) : List (String × Json) :=
  members.filter fun m => names.contains m.1

section

variable {α : Type} {Means : Json → α → Prop} {members : List (String × Json)} {name : String}
  {names : List String} {a? : Option α}

theorem not_mem_names (h : ∀ m ∈ members, m.1 ≠ name) : name ∉ members.map Prod.fst := by
  rw [List.mem_map]
  rintro ⟨m, hm, hname⟩
  exact h m hm hname

theorem Gives.count_le (h : Gives Means members name a?) :
    (members.map Prod.fst).count name ≤ 1 := by
  cases h with
  | absent h =>
    rw [List.count_eq_zero_of_not_mem (not_mem_names h)]
    exact Nat.zero_le 1
  | once hsplit hbefore hafter _ =>
    have hone : (members.map Prod.fst).count name = 1 := by
      rw [hsplit, List.map_append, List.map_cons, List.count_append, List.count_cons_self,
        List.count_eq_zero_of_not_mem (not_mem_names hbefore),
        List.count_eq_zero_of_not_mem (not_mem_names hafter)]
    exact Nat.le_of_eq hone

theorem Gives.known (h : Gives Means members name a?) (hname : name ∈ names) :
    Gives Means (known names members) name a? := by
  have hkept {ms : List (String × Json)} (h : ∀ m ∈ ms, m.1 ≠ name) :
      ∀ m ∈ Json.known names ms, m.1 ≠ name := fun m hm => h m (List.mem_of_mem_filter hm)
  cases h with
  | absent h => exact .absent (hkept h)
  | once hsplit hbefore hafter hmeans =>
    refine .once ?_ (hkept hbefore) (hkept hafter) hmeans
    rw [hsplit, Json.known, List.filter_append, List.filter_cons_of_pos (by simpa using hname)]
    rfl

theorem Gives.optional? {β : Type} {read? : Json → Option β} {f : α → β}
    (h : Gives Means members name a?) (hread : ∀ {j a}, Means j a → read? j = some (f a))
    (default : β) : optional? members name read? default = some ((a?.map f).getD default) := by
  cases h with
  | absent h =>
    have hnone : members.lookup name = none :=
      List.lookup_eq_none_iff.2 fun m hm => bne_iff_ne.2 (h m hm).symm
    rw [Json.optional?, hnone]
    rfl
  | @once before after j a hsplit hbefore _ hmeans =>
    have hsome : members.lookup name = some j :=
      List.lookup_eq_some_iff.2
        ⟨before, after, hsplit, fun m hm => bne_iff_ne.2 (hbefore m hm).symm⟩
    rw [Json.optional?, hsome]
    exact hread hmeans

theorem Gives.first {j : Json} {a : α} {after : List (String × Json)} (hmeans : Means j a)
    (hafter : ∀ m ∈ after, m.1 ≠ name) : Gives Means ((name, j) :: after) name (some a) :=
  .once (List.nil_append _).symm (List.forall_mem_nil _) hafter hmeans

theorem Gives.second {name' : String} {j j' : Json} {a : α} (hmeans : Means j a)
    (hne : name' ≠ name) : Gives Means [(name', j'), (name, j)] name (some a) :=
  .once (List.singleton_append ..).symm (List.forall_mem_singleton.2 hne) (List.forall_mem_nil _)
    hmeans

end

theorem nodup_known {names : List String} {members : List (String × Json)}
    (h : ∀ name ∈ names, (members.map Prod.fst).count name ≤ 1) :
    ((known names members).map Prod.fst).Nodup := by
  have hfilter : (known names members).map Prod.fst =
      (members.map Prod.fst).filter fun name => names.contains name := by
    rw [List.filter_map]
    rfl
  rw [hfilter, List.nodup_iff_count_le_one]
  intro name
  by_cases hname : name ∈ names
  · rw [List.count_filter (List.contains_iff_mem.2 hname)]
    exact h name hname
  · rw [List.count_eq_zero_of_not_mem fun hmem => hname (by simpa using (List.mem_filter.1 hmem).2)]
    exact Nat.zero_le 1

theorem mapM_spelled? (members : List (String × Json)) :
    (members.map fun m => (points m.1, m.2)).mapM
      (fun m => (spelled? m.1).map fun name => (name, m.2)) = some members := by
  induction members with
  | nil => rfl
  | cons m members ih =>
    rw [List.map_cons, List.mapM_cons, spelled?_points, ih]
    rfl

/-- A record has its known members read if none of them comes twice. -/
theorem members?_record {names : List String} {members : List (String × Json)}
    (h : ∀ name ∈ names, (members.map Prod.fst).count name ≤ 1) :
    (record members).members? names = some (known names members) := by
  have hread : (record members).members? names =
      (some members).bind fun named =>
        if ((known names named).map Prod.fst).Nodup then some (known names named) else none :=
    congrArg (fun named? : Option (List (String × Json)) => named?.bind fun named =>
      if ((known names named).map Prod.fst).Nodup then some (known names named) else none)
      (mapM_spelled? members)
  rw [hread, Option.bind_some, if_pos (nodup_known h)]

end Json
end AudioWalk
