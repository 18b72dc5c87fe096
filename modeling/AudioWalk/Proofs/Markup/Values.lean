import AudioWalk.Proofs.Results
import AudioWalk.Proofs.Markup.Grammar

/-!
# Values of attributes

Resolving a tree fresh from a document replaces each value by what it stands for
and changes nothing else.  `resolve_written` says when this succeeds for an
element: where its tag keeps the rules of the grammar and its children resolve.
-/

namespace AudioWalk
namespace Markup
namespace Element

theorem resolveValue_eq_ok {raw value : String} :
    resolveValue raw = .ok value ↔ decode raw.toList = .ok value.toList := by
  unfold resolveValue
  split
  · next cs hcs =>
    rw [hcs, Except.ok.injEq, Except.ok.injEq]
    exact ⟨fun h => by rw [← h, String.toList_ofList], fun h => by rw [h, String.ofList_toList]⟩
  · next h => simp [h]
  · next h => simp [h]

theorem lookup_isSome_iff_mem (pairs : List (String × String)) (key : String) :
    (pairs.lookup key).isSome = true ↔ key ∈ pairs.map Prod.fst := by
  rw [List.lookup_isSome_iff, List.mem_map]
  simp only [beq_iff_eq]
  exact ⟨fun ⟨p, hp, heq⟩ => ⟨p, hp, heq.symm⟩, fun ⟨p, hp, heq⟩ => ⟨p, hp, heq.symm⟩⟩

theorem resolveAttributes_cons_eq_ok {line : Nat} {name key raw : String}
    {done rest pairs : List (String × String)} :
    resolveAttributes line name done ((key, raw) :: rest) = .ok pairs ↔
      ∃ value, resolveValue raw = .ok value ∧ key ∉ done.map Prod.fst ∧
        resolveAttributes line name (done ++ [(key, value)]) rest = .ok pairs := by
  rw [resolveAttributes, bind_eq_ok]
  refine exists_congr fun value => and_congr_right fun _ => ?_
  by_cases hrepeated : key ∈ done.map Prod.fst
  · have hlookup := (lookup_isSome_iff_mem done key).2 hrepeated
    simp only [hlookup, if_true, bind_eq_ok, hrepeated, not_true_eq_false, false_and, iff_false]
    exact nofun
  · have hlookup : ¬ (done.lookup key).isSome = true := fun h =>
      hrepeated ((lookup_isSome_iff_mem done key).1 h)
    rw [and_iff_right hrepeated, if_neg hlookup]

/-- Attributes are resolved where each value is and no name is there twice,
counting those that are resolved already. -/
theorem resolveAttributes_eq_ok {line : Nat} {name : String}
    {done raws pairs : List (String × String)} :
    resolveAttributes line name done raws = .ok pairs ↔
      ∃ more, pairs = done ++ more ∧
        List.Forall₂ (fun raw pair => pair.1 = raw.1 ∧ resolveValue raw.2 = .ok pair.2)
          raws more ∧
        (more.map Prod.fst).Nodup ∧ ∀ pair ∈ more, pair.1 ∉ done.map Prod.fst := by
  induction raws generalizing done with
  | nil =>
    rw [resolveAttributes, Except.ok.injEq]
    constructor
    · rintro rfl
      exact ⟨[], (List.append_nil _).symm, .nil, List.nodup_nil, fun _ h =>
        absurd h List.not_mem_nil⟩
    · rintro ⟨more, rfl, hmore, -⟩
      cases hmore
      exact (List.append_nil _).symm
  | cons raw raws ih =>
    obtain ⟨key, raw⟩ := raw
    rw [resolveAttributes_cons_eq_ok]
    constructor
    · rintro ⟨value, hvalue, hfresh, hrest⟩
      obtain ⟨more, rfl, hmore, hnodup, hnew⟩ := ih.1 hrest
      have hkey : key ∉ more.map Prod.fst := by
        intro hmem
        obtain ⟨pair, hpair, rfl⟩ := List.mem_map.1 hmem
        exact hnew pair hpair (by simp)
      refine ⟨(key, value) :: more, by simp, .cons ⟨rfl, hvalue⟩ hmore,
        List.nodup_cons.2 ⟨hkey, hnodup⟩, ?_⟩
      intro pair hpair
      rcases List.mem_cons.1 hpair with rfl | hpair
      · exact hfresh
      · exact fun hmem => hnew pair hpair (by simp [hmem])
    · rintro ⟨more, rfl, hmore, hnodup, hnew⟩
      cases hmore with
      | @cons _ first _ more hfirst hmore =>
        obtain ⟨key', value⟩ := first
        obtain ⟨hkey, hvalue⟩ : key' = key ∧ resolveValue raw = .ok value := hfirst
        subst hkey
        obtain ⟨hunlike, hnodup⟩ := List.nodup_cons.1 hnodup
        refine ⟨value, hvalue, hnew _ List.mem_cons_self,
          ih.2 ⟨more, by simp, hmore, hnodup, ?_⟩⟩
        intro pair hpair hmem
        rw [List.map_append, List.mem_append] at hmem
        rcases hmem with hmem | hmem
        · exact hnew pair (List.mem_cons_of_mem _ hpair) hmem
        · exact hunlike (List.mem_map.2 ⟨pair, hpair, List.mem_singleton.1 hmem⟩)

theorem resolve_eq_ok {name : String} {raws : List (String × String)} {es : List Element}
    {line : Nat} {e : Element} :
    resolve ⟨name, raws, es, line⟩ = .ok e ↔
      ∃ pairs children, resolveAttributes line name [] raws = .ok pairs ∧
        resolveAll es = .ok children ∧ e = ⟨name, pairs, children, line⟩ := by
  simp only [resolve, bind_eq_ok, pure_eq_ok, exists_and_left]

theorem resolveAll_cons_eq_ok {e : Element} {es children : List Element} :
    resolveAll (e :: es) = .ok children ↔
      ∃ child more, resolve e = .ok child ∧ resolveAll es = .ok more ∧
        children = child :: more := by
  simp only [resolveAll, bind_eq_ok, pure_eq_ok, exists_and_left]

/-- Names and values as they are written. -/
def written (as : List Attribute) : List (String × String) :=
  as.map fun a => (String.ofList a.name, String.ofList a.value)

theorem resolveAttributes_written {line : Nat} {name : String} {as : List Attribute}
    {pairs : List (String × String)} :
    resolveAttributes line name [] (written as) = .ok pairs ↔ Denote as pairs := by
  rw [resolveAttributes_eq_ok, written]
  simp only [List.nil_append, List.map_nil, List.not_mem_nil, not_false_eq_true, implies_true,
    and_true, List.forall₂_map_left_iff, resolveValue_eq_ok, String.toList_ofList]
  constructor
  · rintro ⟨more, rfl, hvalues, hdistinct⟩
    exact ⟨hvalues, hdistinct⟩
  · exact fun h => ⟨pairs, rfl, h.values, h.distinct⟩

theorem resolve_written {name : String} {as : List Attribute} {es : List Element} {line : Nat}
    {e : Element} :
    resolve ⟨name, written as, es, line⟩ = .ok e ↔
      ∃ pairs children, Denote as pairs ∧ resolveAll es = .ok children ∧
        e = ⟨name, pairs, children, line⟩ := by
  simp only [resolve_eq_ok, resolveAttributes_written]

end Element
end Markup
end AudioWalk
