/-
# Expansion keeps the meaning

An interpretation fits a catalog if a declared name means what its schema
means with references kept by name. Then it makes no difference to the
meaning of a schema whether its references are expanded in place or kept by
name, on whatever stack the expansion starts and whatever cycles the catalog
has.

Key definitions: `Interpretation.Fits`.
Key theorems: `Interpretation.meaning_termWith_congr`,
`Interpretation.meaning_inlined_eq_kept`.
-/
import Mathlib
import SchemaTypes.Proofs.TypeTerm.Interpretation
import SchemaTypes.Proofs.Typing.References

namespace SchemaTypes

universe u

namespace Interpretation

variable {α : Type u} (I : Interpretation α)

/-- What a schema means depends on what its references mean, and on nothing
else about them. -/
theorem meaning_termWith_congr {f g : String → Logged TypeTerm} (s : Schema)
    (h : ∀ r ∈ s.references, I.meaning (f r).value = I.meaning (g r).value) :
    I.meaning (s.termWith f).value = I.meaning (s.termWith g).value := by
  induction s using Schema.part_induction with
  | step s ih =>
    have hparts : (∀ r, s.rule ≠ .reference r) → ∀ t ∈ s.rule.parts,
        I.meaning (t.termWith f).value = I.meaning (t.termWith g).value := by
      intro hs t ht
      refine ih t ht fun r hr => h r ?_
      rw [Schema.references_of_parts hs]
      exact List.mem_flatMap.2 ⟨t, ht, hr⟩
    rw [s.termWith_eq_rule f, s.termWith_eq_rule g]
    cases hr : s.rule with
    | reference r =>
      rw [Schema.references_of_reference hr] at h
      exact h r (List.mem_singleton_self r)
    | literals vs => rfl
    | plain p => rfl
    | union ms =>
      rw [hr] at hparts
      simp only [Schema.Rule.termWith, Logged.value_map, Schema.value_membersWith, meaning,
        memberMeanings_eq, List.map_map]
      exact congrArg I.union (List.map_congr_left (hparts (by simp)))
    | intersection ms =>
      rw [hr] at hparts
      simp only [Schema.Rule.termWith, Logged.value_map, Schema.value_membersWith, meaning,
        memberMeanings_eq, List.map_map]
      exact congrArg I.intersection (List.map_congr_left (hparts (by simp)))
    | array item =>
      rw [hr] at hparts
      simp only [Schema.Rule.termWith, Logged.value_map, meaning]
      exact congrArg I.array (hparts (by simp) item (List.mem_singleton_self item))
    | object ps =>
      rw [hr] at hparts
      simp only [Schema.Rule.termWith, Logged.value_map, Schema.value_propertiesWith, meaning,
        fieldMeanings_eq, List.map_map]
      refine congrArg I.object (List.map_congr_left fun p hp => ?_)
      have := hparts (by simp) p.2 (List.mem_map_of_mem hp)
      simp only [Function.comp_apply, Schema.fieldWith, this]

open Typing (term reference Visits)
open Catalog (ring eq_link_of_ring)
open Schema (link)

/-- Every declared name of the catalog means what its schema means with
references kept by name. -/
def Fits (c : Catalog) (o : Settings) : Prop :=
  ∀ n s, c.find? n = some s →
    I.named (o.declaredName n) = I.meaning (term c { o with inlineRefs := false } [] (some s)).value

/-- An expanded reference means what its name means, under an interpretation
that fits. -/
theorem meaning_reference {c : Catalog} {o : Settings} (hI : I.Fits c o) (stack : List String) :
    ∀ r, c.contains (Reference.target r) = true →
      (∀ s, Reference.resolve? r c = some s →
        ∀ r', Visits c { o with inlineRefs := true } s r' →
          c.contains (Reference.target r') = true) →
      I.meaning (reference c { o with inlineRefs := true } stack r).value =
        I.meaning (Typing.named o r) := by
  induction stack using c.stack_induction with
  | step stack ih =>
    intro r hr hclosed
    by_cases hs : Reference.target r ∈ stack
    · rw [Typing.reference_cut rfl hs]
      rfl
    · obtain ⟨s, hc⟩ := Option.isSome_iff_exists.1 hr
      have hc : Reference.resolve? r c = some s := hc
      rw [Typing.reference_expanded rfl hs hc]
      calc I.meaning (s.termWith (reference c { o with inlineRefs := true }
              (stack ++ [Reference.target r]))).value
          = I.meaning (s.termWith (reference c { o with inlineRefs := false } [])).value := by
            refine I.meaning_termWith_congr s fun r' hr' => ?_
            rw [Typing.reference_kept (o := { o with inlineRefs := false }) rfl]
            refine ih _ (Catalog.mem_names_of_resolve? hc) hs r'
              (hclosed s hc r' (Typing.visits_of_mem_references hr')) fun t ht r'' hr'' => ?_
            obtain ⟨u, hu, hur⟩ := hr''
            exact hclosed s hc r'' ⟨u, Typing.meets_of_mem_references rfl hr' ht hu, hur⟩
        _ = I.meaning (Typing.named o r) := (hI _ s hc).symm

/-- **Expansion keeps the meaning.** If every reference that expanding a
schema comes to has its target in the catalog, the schema means the same with
references expanded as with references kept by name. -/
theorem meaning_inlined_eq_kept {c : Catalog} {o : Settings} (hI : I.Fits c o)
    (stack : List String) (s : Schema)
    (hclosed : ∀ r, Visits c { o with inlineRefs := true } s r →
      c.contains (Reference.target r) = true) :
    I.meaning (term c { o with inlineRefs := true } stack (some s)).value =
      I.meaning (term c { o with inlineRefs := false } stack (some s)).value := by
  refine I.meaning_termWith_congr s fun r hr => ?_
  rw [Typing.reference_kept (o := { o with inlineRefs := false }) rfl]
  refine I.meaning_reference hI stack r (hclosed r (Typing.visits_of_mem_references hr)) ?_
  rintro t ht r' ⟨u, hu, hur⟩
  exact hclosed r' ⟨u, Typing.meets_of_mem_references rfl hr ht hu, hur⟩

/-! ### Keys as a meaning -/

/-- The keys of the objects in a type, at any depth, where a declared name
stands for the keys it is given. -/
def keys (declared : String → String → Prop) : Interpretation (String → Prop) where
  any _ := False
  number _ := False
  string _ := False
  boolean _ := False
  record _ := False
  literal _ _ := False
  named := declared
  array t := t
  object fs k := ∃ f ∈ fs, k = f.1 ∨ f.2.2 k
  union ms k := ∃ m ∈ ms, m k
  intersection ms k := ∃ m ∈ ms, m k

/-- An expansion that starts inside of `A` cuts the ring there, and `B` has the
keys of both schemas either way. -/
theorem keys_of_ring :
    let I := keys fun n k => (n = "IA" ∨ n = "IB") ∧ (k = "a" ∨ k = "b")
    I.Fits ring {} ∧
      (∀ r, Visits ring { inlineRefs := true } (.ofReference "B") r →
        ring.contains (Reference.target r) = true) ∧
      I.meaning (term ring { inlineRefs := true } ["A"] (some (.ofReference "B"))).value =
        I.meaning (term ring {} ["A"] (some (.ofReference "B"))).value := by
  intro I
  have hfits : I.Fits ring {} := by
    intro n s h
    obtain ⟨rfl, rfl⟩ | ⟨rfl, rfl⟩ := eq_link_of_ring h
    · have : (term ring {} [] (some (link "b" "#/components/schemas/B"))).value =
          .object [⟨"b", true, .named "IB"⟩] := by cbv
      rw [this]
      funext k
      simpa [I, keys, meaning, fieldMeanings, Settings.declaredName] using Or.inr
    · have : (term ring {} [] (some (link "a" "#/components/schemas/A"))).value =
          .object [⟨"a", true, .named "IA"⟩] := by cbv
      rw [this]
      funext k
      simp [I, keys, meaning, fieldMeanings, Settings.declaredName]
  have hclosed : ∀ r, Visits ring { inlineRefs := true } (.ofReference "B") r →
      ring.contains (Reference.target r) = true := by
    intro r
    refine Typing.contains_of_visits ?_ fun n s h => ?_
    · rw [show (Schema.ofReference "B").references = ["B"] by cbv]
      decide
    · obtain ⟨-, rfl⟩ | ⟨-, rfl⟩ := eq_link_of_ring h
      · rw [show (link "b" "#/components/schemas/B").references = ["#/components/schemas/B"] by cbv]
        decide
      · rw [show (link "a" "#/components/schemas/A").references = ["#/components/schemas/A"] by cbv]
        decide
  exact ⟨hfits, hclosed, I.meaning_inlined_eq_kept hfits ["A"] _ hclosed⟩

end Interpretation
end SchemaTypes
